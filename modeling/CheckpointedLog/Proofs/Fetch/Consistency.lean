import CheckpointedLog.Proofs.Fetch.History
import CheckpointedLog.Proofs.Fetch.Step

/-!
Between two critical sections of fetching the offsets say exactly what was emitted. The loop polls from
positions of its own; what ties them to the offsets is that no position is below its offset, so that a
record that is not skipped always moves the offset.
-/
namespace CheckpointedLog

variable {ω : Type}

/-- At each stage of a round, the partitions that are still to be polled or delivered have positions,
except for those that are still to be positioned. -/
def FetchStage.Covered (positions : OffsetMap) (offsets : OffsetState) : FetchStage → Prop
  | .positioning round todo => ∀ p ∈ round, p ∈ todo ∨ positions.contains p = true
  | .recording round todo p _ =>
    (∀ q ∈ round, q = p ∨ q ∈ todo ∨ positions.contains q = true) ∧
      ∃ o, offsets.get? p = some o ∧ o.isSentinel = true
  | .awaiting outcomes _ => ∀ o ∈ outcomes, positions.contains o.partition = true
  | .delivering p _ rest _ =>
    positions.contains p = true ∧ ∀ o ∈ rest, positions.contains o.partition = true
  | _ => True

theorem FetchStage.Resting.covered {stage : FetchStage} (h : stage.Resting)
    (positions : OffsetMap) (offsets : OffsetState) : stage.Covered positions offsets := by
  cases stage with
  | idle | pausing | finished => trivial
  | _ => exact h.elim

/-- Every copy says what is expected from the history before it. -/
def FetchHistory.CopiesAgree (s : OffsetState) (h : FetchHistory) : Prop :=
  ∀ before c after, h = before ++ .copied c :: after → ∀ p, c.get? p = FetchHistory.entry s before p

/-- What holds of a run that began at the offsets `s` whenever nothing is within a critical section. -/
structure FetchTrace.Consistent (s : OffsetState) (t : FetchTrace ω) : Prop where
  entry : ∀ p, t.run.fetcher.offsets.get? p = t.history.entry s p
  position : ∀ p n, t.run.loop.positions.get? p = some n →
    ∃ last, t.run.fetcher.offsets.get? p = some (.concrete last) ∧ last ≤ n
  sentinel : ∀ p, t.history.resolutions p ≠ [] →
    ∃ o, t.history.origin s p = some o ∧ o.isSentinel = true
  copies : t.history.CopiesAgree s
  covered : t.run.loop.stage.Covered t.run.loop.positions t.run.fetcher.offsets

namespace FetchLoop

/-- Each of the polled partitions has an outcome, and there are no others. -/
theorem mem_pollAll {client : BrokerClient ω} {timeoutMs : Nat} {positions : OffsetMap}
    {round : List Partition} {w : ω} {o : Polled}
    (h : o ∈ (pollAll client timeoutMs positions round w).1) : o.partition ∈ round := by
  induction round generalizing w with
  | nil => cases h
  | cons p round ih =>
    rcases List.mem_cons.mp h with rfl | h
    · exact List.mem_cons_self ..
    · exact List.mem_cons_of_mem _ (ih h)

/-- The outcomes of a round can be taken as soon as all its partitions have positions. -/
theorem covered_of_delivering {positions : OffsetMap} {offsets : OffsetState} {stage : FetchStage}
    {outcomes : List Polled}
    (ho : ∀ o ∈ outcomes, positions.contains o.partition = true)
    (h : stage.Resting ∨ ∃ o records rest failure, o ∈ outcomes ∧ rest ⊆ outcomes ∧
      o.records = .ok records ∧ stage = .delivering o.partition records rest failure) :
    stage.Covered positions offsets := by
  rcases h with h | ⟨o, records, rest, failure, hmem, hsub, _, rfl⟩
  · exact h.covered positions offsets
  · exact ⟨ho o hmem, fun x hx => ho x (hsub hx)⟩

end FetchLoop

namespace FetchTrace.Consistent

variable {s : OffsetState} {l : FetchLoop} {f : Fetcher} {w : ω} {h : FetchHistory}

/-- An event that is no copy leaves the copies of a run as they are. -/
theorem copies_append {e : FetchEvent}
    (hc : FetchHistory.CopiesAgree s h)
    (he : ∀ c, e = .copied c → ∀ p, c.get? p = FetchHistory.entry s h p) :
    FetchHistory.CopiesAgree s (h ++ [e]) := by
  intro before c after hsplit p
  -- The copy is the event itself, or it stands in the history before it.
  rcases FetchHistory.copied_of_append hsplit with ⟨rest, -, hfront⟩ | ⟨front, rfl, hlast⟩
  · exact hc before c rest hfront p
  · rcases List.singleton_eq_append_iff.mp hlast with ⟨rfl, hlast⟩ | ⟨-, hlast⟩
    · rw [List.append_nil]
      exact he c (List.cons.inj hlast).1 p
    · cases hlast

/-- A step that neither moves an offset nor a position is fine if the new stage is. -/
theorem moved (c : Consistent s ⟨⟨l, f, w⟩, h⟩) (he : l.event? none = none) {l' : FetchLoop}
    (w' : ω) (hp : l'.positions = l.positions) (hs : l'.stage.Covered l.positions f.offsets) :
    Consistent s ⟨⟨l', f, w'⟩, h ++ (l.event? none).toList⟩ := by
  rw [he, Option.toList_none, List.append_nil]
  constructor
  case entry => exact c.entry
  case position =>
    change ∀ p n, l'.positions.get? p = some n → _
    rw [hp]
    exact c.position
  case sentinel => exact c.sentinel
  case copies => exact c.copies
  case covered =>
    change l'.stage.Covered l'.positions f.offsets
    rw [hp]
    exact hs

/-- A partition without a sentinel gets its position from its last offset. -/
theorem positioned (c : Consistent s ⟨⟨l, f, w⟩, h⟩) {round todo : List Partition} {p : Partition}
    {last : Int64} {n : Position} (hs : l.stage = .positioning round (p :: todo))
    (ho : f.offsets.get? p = some (.concrete last)) (hn : Position.after? last = some n) :
    Consistent s
      ⟨⟨{ l with stage := .positioning round todo, positions := l.positions.insert p n }, f, w⟩,
        h ++ (l.event? none).toList⟩ := by
  rw [show l.event? none = none by simp [FetchLoop.event?, hs], Option.toList_none, List.append_nil]
  constructor
  case entry => exact c.entry
  case position =>
    intro q m hm
    rcases SortedMap.of_get?_insert hm with ⟨rfl, rfl⟩ | ⟨-, hm⟩
    · refine ⟨last, ho, ?_⟩
      rw [Int64.le_iff_toInt_le, Position.toInt_after? hn]
      omega
    · exact c.position q m hm
  case sentinel => exact c.sentinel
  case copies => exact c.copies
  case covered =>
    have hcovered := c.covered
    change l.stage.Covered l.positions f.offsets at hcovered
    rw [hs] at hcovered
    intro q hq
    rw [SortedMap.contains_insert]
    rcases hcovered q hq with hq | hq
    · rcases List.mem_cons.mp hq with rfl | hq
      · simp
      · exact Or.inl hq
    · simp [hq]

theorem recorded (c : Consistent s ⟨⟨l, f, w⟩, h⟩) {round todo : List Partition} {p : Partition}
    {n : Position} (hs : l.stage = .recording round todo p n) :
    Consistent s
      ⟨⟨{ l with stage := .positioning round todo, positions := l.positions.insert p n },
        { f with offsets := FetchLoop.recordPosition f.offsets p n }, w⟩, h ++ [.resolved p n]⟩ := by
  have hcovered := c.covered
  change l.stage.Covered l.positions f.offsets at hcovered
  rw [hs] at hcovered
  obtain ⟨hround, o, ho, hsentinel⟩ := hcovered
  -- While the sentinel is there, nothing was seen of the partition yet.
  obtain ⟨hrecords, hresolutions, horigin⟩ :=
    FetchHistory.of_entry_isSentinel ((c.entry p).symm.trans ho) hsentinel
  have hself := FetchLoop.get?_recordPosition_self ho hsentinel n
  have hother {q : Partition} (hq : q ≠ p) := FetchLoop.get?_recordPosition_of_ne f.offsets n hq
  constructor
  case entry =>
    intro q
    rw [FetchHistory.entry_resolved s n hrecords]
    split
    next hq =>
      subst hq
      exact hself
    next hq => exact (hother hq).trans (c.entry q)
  case position =>
    intro q m hm
    rcases SortedMap.of_get?_insert hm with ⟨rfl, rfl⟩ | ⟨hq, hm⟩
    · exact ⟨_, hself, Position.beforeCapped_le n⟩
    · obtain ⟨last, hlast, hle⟩ := c.position q m hm
      exact ⟨last, (hother hq).trans hlast, hle⟩
  case sentinel =>
    intro q hq
    rw [FetchHistory.origin_resolved]
    by_cases hqp : q = p
    · exact ⟨o, hqp ▸ horigin, hsentinel⟩
    · apply c.sentinel q
      simpa [FetchHistory.resolutions, Ne.symm hqp] using hq
  case copies => exact copies_append c.copies (by simp)
  case covered =>
    intro q hq
    rw [SortedMap.contains_insert]
    rcases hround q hq with rfl | hq | hq
    · simp
    · exact Or.inl hq
    · simp [hq]

/-- A record that is not skipped moves the offset of the partition that it was polled from. -/
theorem emitted (c : Consistent s ⟨⟨l, f, w⟩, h⟩) {p : Partition} {r : Record}
    {records : List Record} {rest : List Polled} {failure : Option SourceError}
    (hs : l.stage = .delivering p (r :: records) rest failure)
    (hr : ¬ r.offset < (l.positions.get? p).getD 0) :
    Consistent s
      ⟨⟨{ l with
          stage := .delivering p records rest failure
          positions := l.positions.insert p (Position.afterCapped r.offset) },
        { f with offsets := (f.offsets.advance p r.offset).2 }, w⟩, h ++ [.emitted p r]⟩ := by
  have hcovered := c.covered
  change l.stage.Covered l.positions f.offsets at hcovered
  rw [hs] at hcovered
  obtain ⟨hp, hrest⟩ := hcovered
  obtain ⟨n, hn⟩ := SortedMap.contains_eq_true_iff.mp hp
  obtain ⟨last, hlast, hle⟩ := c.position p n hn
  rw [hn, Option.getD_some, Int64.not_lt] at hr
  -- The offset is not above the position, and the record is not below it: the move is admitted.
  have hself : (f.offsets.advance p r.offset).2.get? p = some (.concrete r.offset) := by
    refine OffsetState.get?_advance_self hlast ?_
    exact decide_eq_true (Int64.le_trans hle hr)
  constructor
  case entry =>
    intro q
    rw [FetchHistory.entry_emitted]
    split
    next hq =>
      subst hq
      exact hself
    next hq => exact (OffsetState.get?_advance_of_ne f.offsets _ hq).trans (c.entry q)
  case position =>
    intro q m hm
    rcases SortedMap.of_get?_insert hm with ⟨rfl, rfl⟩ | ⟨hq, hm⟩
    · exact ⟨r.offset, hself, Position.le_afterCapped r.offset⟩
    · obtain ⟨a, ha, hle⟩ := c.position q m hm
      exact ⟨a, (OffsetState.get?_advance_of_ne f.offsets _ hq).trans ha, hle⟩
  case sentinel =>
    intro q hq
    rw [FetchHistory.origin_emitted]
    apply c.sentinel q
    simpa [FetchHistory.resolutions] using hq
  case copies => exact copies_append c.copies (by simp)
  case covered =>
    refine ⟨?_, fun o ho => ?_⟩
    · simp [SortedMap.contains_insert]
    · simp [SortedMap.contains_insert, show l.positions.contains o.partition = true from hrest o ho]

theorem of_step (c : Consistent s ⟨⟨l, f, w⟩, h⟩) {client : BrokerClient ω} {now : Nat}
    {l' : FetchLoop} {f' : Fetcher} {w' : ω} {r : Option Record}
    (hstep : l.Step client now f w l' f' w' r) :
    Consistent s ⟨⟨l', f', w'⟩, h ++ (l.event? r).toList⟩ := by
  have hcovered := c.covered
  change l.stage.Covered l.positions f.offsets at hcovered
  -- Only positioning, recording and emitting change an offset or a position; for all other cases it
  -- is enough to look at the new stage.
  cases hstep with
  | begun hs =>
    have hevent : l.event? none = none := by
      rcases hs with hs | ⟨wake, hs⟩ <;> simp [FetchLoop.event?, hs]
    apply c.moved hevent w (FetchLoop.beginRound_positions ..)
    rcases FetchLoop.beginRound_stage f now l with hr | hr
    · exact hr.covered ..
    · rw [hr]
      exact fun p hp => Or.inl hp
  | known hs hp =>
    rw [hs] at hcovered
    refine c.moved (by simp [FetchLoop.event?, hs]) w rfl fun q hq => ?_
    rcases hcovered q hq with hq | hq
    · exact (List.mem_cons.mp hq).elim (fun he => Or.inr (he ▸ hp)) Or.inl
    · exact Or.inr hq
  | untracked hs | overflowed hs | unresolved hs =>
    exact c.moved (by simp [FetchLoop.event?, hs]) _ (FetchLoop.failRound_positions ..)
      ((FetchLoop.failRound_resting ..).covered ..)
  | positioned hs hp ho hn =>
    exact c.positioned hs ho hn
  | resolved hs hp ho hsentinel hr =>
    rw [hs] at hcovered
    refine c.moved (by simp [FetchLoop.event?, hs]) _ rfl ⟨fun q hq => ?_, _, ho, hsentinel⟩
    rcases hcovered q hq with hq | hq
    · exact (List.mem_cons.mp hq).imp_right Or.inl
    · exact Or.inr (Or.inr hq)
  | @polled _ outcomes _ _ hs hp =>
    rw [hs] at hcovered
    refine c.moved (by simp [FetchLoop.event?, hs]) _ rfl fun o ho => ?_
    rw [show outcomes = _ from (congrArg Prod.fst hp).symm] at ho
    exact (hcovered _ (FetchLoop.mem_pollAll ho)).resolve_left List.not_mem_nil
  | @recorded _ _ p n hs =>
    rw [show l.event? none = some (.resolved p n) by simp [FetchLoop.event?, hs]]
    exact c.recorded hs
  | settled hs =>
    rw [hs] at hcovered
    exact c.moved (by simp [FetchLoop.event?, hs]) _ (FetchLoop.settle_positions ..)
      (FetchLoop.covered_of_delivering hcovered (FetchLoop.settle_stage ..))
  | delivered hs =>
    rw [hs] at hcovered
    exact c.moved (by simp [FetchLoop.event?, hs]) _ (FetchLoop.settleRest_positions ..)
      (FetchLoop.covered_of_delivering hcovered.2 (FetchLoop.settleRest_stage ..))
  | skipped hs hr =>
    rw [hs] at hcovered
    exact c.moved (by simp [FetchLoop.event?, hs]) _ rfl hcovered
  | dropped hs hc =>
    exact c.moved (by simp [FetchLoop.event?, hs]) _ rfl trivial
  | @emitted p r _ _ _ hs hr hc =>
    rw [show l.event? (some r) = some (.emitted p r) by simp [FetchLoop.event?, hs]]
    exact c.emitted hs hr
  | ended hs => exact c.moved (by simp [FetchLoop.event?, hs]) w rfl hcovered

/-- Partitions that are tracked stay as they are when partitions are added. -/
theorem added (c : Consistent s ⟨⟨l, f, w⟩, h⟩) (o : Offset) (ps : List Partition) :
    Consistent s ⟨⟨l, { f with offsets := (f.offsets.addPartitions o ps).2 }, w⟩,
      h ++ [.added ps o]⟩ := by
  have hkept {p : Partition} {a : Offset} (ha : f.offsets.get? p = some a) :
      (f.offsets.addPartitions o ps).2.get? p = some a := by
    rw [OffsetState.get?_addPartitions, ha, Option.some_or]
  constructor
  case entry =>
    intro p
    rw [FetchHistory.entry_added, ← show f.offsets.get? p = h.entry s p from c.entry p]
    exact OffsetState.get?_addPartitions f.offsets o ps p
  case position =>
    intro p n hn
    obtain ⟨last, hlast, hle⟩ := c.position p n hn
    exact ⟨last, hkept hlast, hle⟩
  case sentinel =>
    intro p hp
    obtain ⟨a, ha, hsentinel⟩ := c.sentinel p (by simpa [FetchHistory.resolutions] using hp)
    exact ⟨a, by rw [FetchHistory.origin_added, ha, Option.some_or], hsentinel⟩
  case copies => exact copies_append c.copies (by simp)
  case covered =>
    -- Only a partition that is about to leave its sentinel is looked up, and it is tracked.
    have hcovered := c.covered
    change l.stage.Covered l.positions f.offsets at hcovered
    change l.stage.Covered l.positions (f.offsets.addPartitions o ps).2
    cases hs : l.stage with
    | recording round todo p n =>
      rw [hs] at hcovered
      obtain ⟨hround, a, ha, hsentinel⟩ := hcovered
      exact ⟨hround, a, hkept ha, hsentinel⟩
    | _ => rwa [hs] at hcovered

theorem copied (c : Consistent s ⟨⟨l, f, w⟩, h⟩) :
    Consistent s ⟨⟨l, f, w⟩, h ++ [.copied f.offsets]⟩ := by
  constructor
  case entry => exact fun p => (c.entry p).trans (FetchHistory.entry_copied ..).symm
  case position => exact c.position
  case sentinel =>
    intro p hp
    rw [FetchHistory.origin_copied]
    exact c.sentinel p (by simpa [FetchHistory.resolutions] using hp)
  case copies =>
    apply copies_append c.copies
    intro a ha p
    obtain rfl := FetchEvent.copied.inj ha
    exact c.entry p
  case covered => exact c.covered

theorem perform {t : FetchTrace ω} (c : t.Consistent s) (client : BrokerClient ω)
    (a : FetchAction ω) : (t.perform client a).Consistent s := by
  cases a with
  | step now => exact c.of_step (FetchLoop.step_cases client now t.run.loop t.run.fetcher t.run.world)
  | copy => exact c.copied
  | add o ps => exact c.added o ps
  | cancel | world w =>
    simp only [FetchTrace.perform, FetchRun.perform, Option.toList_none, List.append_nil]
    exact ⟨c.entry, c.position, c.sentinel, c.copies, c.covered⟩

theorem performAll {t : FetchTrace ω} (c : t.Consistent s) (client : BrokerClient ω)
    (actions : List (FetchAction ω)) : (t.performAll client actions).Consistent s := by
  induction actions generalizing t with
  | nil => exact c
  | cons a actions ih => exact ih (c.perform client a)

theorem begin (f : Fetcher) (w : ω) : (FetchTrace.begin f w).Consistent f.offsets where
  entry p := by simp [FetchTrace.begin, FetchHistory.entry, FetchHistory.recordsFrom,
    FetchHistory.resolutions, FetchHistory.origin]
  position _ _ hn := nomatch hn
  sentinel _ hp := absurd rfl hp
  copies before c after hsplit := by simp [FetchTrace.begin] at hsplit
  covered := trivial

end FetchTrace.Consistent

/-- Whatever the client answers and in whatever order the loop, copies, additions and a cancellation
follow each other, each offset is the one that the history of the run says: that of the last record
emitted, else the one before the position recorded for the sentinel, else the one that the partition
came with. Every copy says the same of what was seen before it. -/
theorem FetchTrace.offsets_reflect_history (client : BrokerClient ω) (f : Fetcher) (w : ω)
    (actions : List (FetchAction ω)) :
    let t := (FetchTrace.begin f w).performAll client actions
    (∀ p, t.run.fetcher.offsets.get? p = t.history.entry f.offsets p) ∧
      ∀ before s after, t.history = before ++ .copied s :: after →
        ∀ p, s.get? p = FetchHistory.entry f.offsets before p := by
  have hc := (Consistent.begin f w).performAll client actions
  exact ⟨hc.entry, hc.copies⟩

end CheckpointedLog
