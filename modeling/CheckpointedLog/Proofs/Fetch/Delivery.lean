import CheckpointedLog.Proofs.Broker.Memory
import CheckpointedLog.Proofs.Fetch.Onward

/-!
Fetching from a broker in memory delivers each log without gaps and repetitions. What polls brought and
was not delivered yet may overlap with what was, but it never begins after the position, so that
skipping the records before the position leaves exactly the next one.
-/
namespace CheckpointedLog

/-- Records that were polled and are still to be delivered continue a log from the position at the
latest. -/
def Pending (w : SharedBroker) (positions : OffsetMap) (p : Partition) (records : List Record) :
    Prop :=
  ∃ start : Nat, (start : Int) ≤ ((positions.get? p).getD 0).toInt ∧
    Stretch (w.broker.log p) p start records

/-- At each stage of a round, everything still to be delivered is pending. -/
def FetchStage.Deliverable (w : SharedBroker) (positions : OffsetMap) : FetchStage → Prop
  | .recording _ _ _ position => 0 ≤ position
  | .awaiting outcomes _ =>
    ∀ o ∈ outcomes, ∀ records, o.records = .ok records → Pending w positions o.partition records
  | .delivering p records rest _ => Pending w positions p records ∧
    ∀ o ∈ rest, ∀ records, o.records = .ok records → Pending w positions o.partition records
  | _ => True

theorem FetchStage.Resting.deliverable {stage : FetchStage} (h : stage.Resting) (w : SharedBroker)
    (positions : OffsetMap) : stage.Deliverable w positions := by
  cases stage with
  | idle | pausing | finished => trivial
  | _ => exact h.elim

theorem Pending.mono {w w' : SharedBroker} {positions positions' : OffsetMap} {p : Partition}
    {records : List Record} (h : Pending w positions p records)
    (hlogs : w.broker.Extends w'.broker)
    (hp : ((positions.get? p).getD 0).toInt ≤ ((positions'.get? p).getD 0).toInt) :
    Pending w' positions' p records := by
  obtain ⟨start, hle, hstretch⟩ := h
  exact ⟨start, Int.le_trans hle hp, hstretch.mono (hlogs p)⟩

theorem FetchStage.Deliverable.grow {stage : FetchStage} {w w' : SharedBroker}
    {positions : OffsetMap} (h : stage.Deliverable w positions)
    (hlogs : w.broker.Extends w'.broker) : stage.Deliverable w' positions := by
  cases stage with
  | awaiting outcomes wake =>
    exact fun o ho records hr => (h o ho records hr).mono hlogs (Int.le_refl _)
  | delivering p records rest failure =>
    exact ⟨h.1.mono hlogs (Int.le_refl _),
      fun o ho records hr => (h.2 o ho records hr).mono hlogs (Int.le_refl _)⟩
  | _ => exact h

def FetchHistory.CopiesStorable (h : FetchHistory) : Prop :=
  ∀ c, FetchEvent.copied c ∈ h → OffsetState.Storable c

theorem FetchHistory.CopiesStorable.append {h events : FetchHistory} (hc : h.CopiesStorable)
    (he : ∀ c, .copied c ∈ events → OffsetState.Storable c) :
    FetchHistory.CopiesStorable (h ++ events) :=
  fun c hmem => (List.mem_append.mp hmem).elim (hc c) (he c)

/-- What holds of a run with a broker in memory that began at the offsets `s`. -/
structure FetchTrace.Delivery (s : OffsetState) (t : FetchTrace SharedBroker) : Prop where
  regular : t.Regular s
  grounded : t.history.Grounded
  committed : t.run.world.broker.CommitsPositions
  copies : t.history.CopiesStorable
  offset : ∀ p last, t.run.fetcher.offsets.get? p = some (.concrete last) →
    ∃ start : Nat, t.history.start s p = some (start : Int) ∧
      last.toInt + 1 = start + (t.history.recordsFrom p).length ∧
      Stretch (t.run.world.broker.log p) p start (t.history.recordsFrom p)
  position : ∀ p n, t.run.loop.positions.get? p = some n →
    ∃ last, t.run.fetcher.offsets.get? p = some (.concrete last) ∧ n.toInt = last.toInt + 1
  stage : t.run.loop.stage.Deliverable t.run.world t.run.loop.positions

namespace FetchLoop

/-- Outcomes of a round continue the logs from the positions that were polled. -/
theorem pollAll_stretch {timeoutMs waitMs : Nat} {positions : OffsetMap} {round : List Partition}
    {w w' : SharedBroker} {outcomes : List Polled}
    (h : pollAll SharedBroker.client timeoutMs positions round w = (outcomes, waitMs, w')) :
    w.Grows w' ∧ (w'.broker.Fits → ∀ o ∈ outcomes, ∀ records, o.records = .ok records →
      Stretch (w'.broker.log o.partition) o.partition
        ((positions.get? o.partition).getD 0).toInt.toNat records) := by
  induction round generalizing w outcomes waitMs w' with
  | nil =>
    simp only [pollAll, Prod.mk.injEq] at h
    obtain ⟨rfl, -, rfl⟩ := h
    exact ⟨SharedBroker.Grows.refl w, fun _ o ho => nomatch ho⟩
  | cons p round ih =>
    simp only [pollAll, Prod.mk.injEq] at h
    obtain ⟨rfl, -, rfl⟩ := h
    have hpoll : w.Grows (SharedBroker.client.poll p ((positions.get? p).getD 0) timeoutMs w).2 :=
      SharedBroker.answer_grows (MemoryBroker.poll_keeps p _ timeoutMs) w
    obtain ⟨hgrows, hothers⟩ := ih rfl
    refine ⟨hpoll.trans hgrows, fun hfits o ho records hr => ?_⟩
    rcases List.mem_cons.mp ho with rfl | ho
    · have hlogs := ((MemoryBroker.poll_keeps p ((positions.get? p).getD 0) timeoutMs
        w.turn.broker).extends).trans hgrows.logs
      exact (MemoryBroker.poll_stretch (hfits.of_extends hlogs) hr).mono (hlogs p)
    · exact hothers hfits o ho records hr

/-- A step lets the logs grow, and nothing else happens to what the group committed. -/
theorem Step.grows {now : Nat} {l l' : FetchLoop} {f f' : Fetcher} {w w' : SharedBroker}
    {r : Option Record} (h : l.Step SharedBroker.client now f w l' f' w' r) : w.Grows w' :=
  h.moves SharedBroker.Grows.refl SharedBroker.Grows.trans
    (fun p position timeoutMs => SharedBroker.answer_grows (MemoryBroker.poll_keeps p position timeoutMs))
    fun p o => SharedBroker.answer_grows (MemoryBroker.resolve_keeps p o)

/-- The outcomes of a round can be delivered whenever one of them is taken. -/
theorem deliverable_of_delivering {w : SharedBroker} {positions : OffsetMap} {stage : FetchStage}
    {outcomes : List Polled}
    (ho : ∀ o ∈ outcomes, ∀ records, o.records = .ok records →
      Pending w positions o.partition records)
    (h : stage.Resting ∨ ∃ o records rest failure, o ∈ outcomes ∧ rest ⊆ outcomes ∧
      o.records = .ok records ∧ stage = .delivering o.partition records rest failure) :
    stage.Deliverable w positions := by
  rcases h with h | ⟨o, records, rest, failure, hmem, hsub, hr, rfl⟩
  · exact h.deliverable w positions
  · exact ⟨ho o hmem records hr, fun x hx => ho x (hsub hx)⟩

end FetchLoop

namespace FetchTrace.Delivery

variable {s : OffsetState} {l l' : FetchLoop} {f : Fetcher} {w w' : SharedBroker}
  {h : FetchHistory}

theorem nonneg (d : Delivery s ⟨⟨l, f, w⟩, h⟩) (p : Partition) :
    0 ≤ ((l.positions.get? p).getD 0).toInt := by
  cases hn : l.positions.get? p with
  | none => exact Int.le_refl 0
  | some n =>
    have hle := (d.regular.grounded d.grounded).positions p n hn
    rwa [Int64.le_iff_toInt_le, Int64.toInt_zero] at hle

/-- A step that neither moves an offset nor a position is fine if the new stage is. -/
theorem moved (d : Delivery s ⟨⟨l, f, w⟩, h⟩) (he : l.event? none = none)
    (hr : Regular s ⟨⟨l', f, w'⟩, h ++ (l.event? none).toList⟩) (hw : w.Grows w')
    (hp : l'.positions = l.positions) (hs : l'.stage.Deliverable w' l.positions) :
    Delivery s ⟨⟨l', f, w'⟩, h ++ (l.event? none).toList⟩ := by
  rw [he, Option.toList_none, List.append_nil] at hr ⊢
  constructor
  case regular => exact hr
  case grounded => exact d.grounded
  case committed => exact hw.commitsPositions d.committed
  case copies => exact d.copies
  case offset =>
    intro p last hlast
    obtain ⟨start, hstart, hcount, hstretch⟩ := d.offset p last hlast
    exact ⟨start, hstart, hcount, hstretch.mono (hw.logs p)⟩
  case position =>
    change ∀ p n, l'.positions.get? p = some n → _
    rw [hp]
    exact d.position
  case stage =>
    change l'.stage.Deliverable w' l'.positions
    rwa [hp]

/-- A partition without a sentinel is polled from the place after its last offset. -/
theorem positioned (d : Delivery s ⟨⟨l, f, w⟩, h⟩) {round todo : List Partition} {p : Partition}
    {last : Int64} {n : Position} (hs : l.stage = .positioning round (p :: todo))
    (ho : f.offsets.get? p = some (.concrete last)) (hn : Position.after? last = some n)
    (hr : Regular s
      ⟨⟨{ l with stage := .positioning round todo, positions := l.positions.insert p n }, f, w⟩,
        h ++ (l.event? none).toList⟩) :
    Delivery s
      ⟨⟨{ l with stage := .positioning round todo, positions := l.positions.insert p n }, f, w⟩,
        h ++ (l.event? none).toList⟩ := by
  rw [show l.event? none = none by simp [FetchLoop.event?, hs], Option.toList_none,
    List.append_nil] at hr ⊢
  constructor
  case regular => exact hr
  case grounded => exact d.grounded
  case committed => exact d.committed
  case copies => exact d.copies
  case offset => exact d.offset
  case position =>
    intro q m hm
    rcases SortedMap.of_get?_insert hm with ⟨rfl, rfl⟩ | ⟨-, hm⟩
    · exact ⟨last, ho, Position.toInt_after? hn⟩
    · exact d.position q m hm
  case stage => trivial

/-- A resolved sentinel makes the position the start of the partition. -/
theorem recorded (d : Delivery s ⟨⟨l, f, w⟩, h⟩) {round todo : List Partition} {p : Partition}
    {n : Position} (hs : l.stage = .recording round todo p n)
    (hr : Regular s
      ⟨⟨{ l with stage := .positioning round todo, positions := l.positions.insert p n },
        { f with offsets := FetchLoop.recordPosition f.offsets p n }, w⟩, h ++ [.resolved p n]⟩) :
    Delivery s
      ⟨⟨{ l with stage := .positioning round todo, positions := l.positions.insert p n },
        { f with offsets := FetchLoop.recordPosition f.offsets p n }, w⟩, h ++ [.resolved p n]⟩ := by
  have hn : 0 ≤ n := by
    have hstage := d.stage
    change l.stage.Deliverable w l.positions at hstage
    rwa [hs] at hstage
  have hbefore : (Position.beforeCapped n).toInt = n.toInt - 1 := Position.toInt_beforeCapped hn
  have hnonneg : 0 ≤ n.toInt := by
    rwa [Int64.le_iff_toInt_le, Int64.toInt_zero] at hn
  have hcovered := d.regular.consistent.covered
  change l.stage.Covered l.positions f.offsets at hcovered
  rw [hs] at hcovered
  obtain ⟨-, o, ho, hsentinel⟩ := hcovered
  -- Nothing was emitted of the partition yet, so its stretch is empty.
  obtain ⟨hrecords, -, horigin⟩ :=
    FetchHistory.of_entry_isSentinel ((d.regular.consistent.entry p).symm.trans ho) hsentinel
  have hself := FetchLoop.get?_recordPosition_self ho hsentinel n
  have hother {q : Partition} (hq : q ≠ p) := FetchLoop.get?_recordPosition_of_ne f.offsets n hq
  have hquiet := FetchHistory.recordsFrom_append_of_quiet h (e := .resolved p n) (by simp)
  constructor
  case regular => exact hr
  case grounded =>
    apply d.grounded.append
    intro q m hm
    obtain ⟨-, rfl⟩ := FetchEvent.resolved.inj (List.mem_singleton.mp hm)
    exact hn
  case committed => exact d.committed
  case copies => exact d.copies.append (by simp)
  case offset =>
    intro q last hlast
    simp only [hquiet]
    by_cases hq : q = p
    · subst hq
      obtain rfl := Offset.concrete.inj (Option.some.inj (hself.symm.trans hlast))
      rw [show FetchHistory.recordsFrom h q = [] from hrecords]
      refine ⟨n.toInt.toNat, ?_, ?_, .nil _⟩
      · rw [FetchHistory.start_resolved_self n horigin hsentinel, Int.toNat_of_nonneg hnonneg]
      · rw [hbefore, List.length_nil]
        omega
    · obtain ⟨start, hstart, hcount, hstretch⟩ := d.offset q last ((hother hq).symm.trans hlast)
      exact ⟨start, (FetchHistory.start_resolved_of_ne s h n hq).trans hstart, hcount, hstretch⟩
  case position =>
    intro q m hm
    rcases SortedMap.of_get?_insert hm with ⟨rfl, rfl⟩ | ⟨hq, hm⟩
    · exact ⟨_, hself, by omega⟩
    · obtain ⟨last, hlast, hnext⟩ := d.position q m hm
      exact ⟨last, (hother hq).trans hlast, hnext⟩
  case stage => trivial

/-- The first pending record that is not skipped is the one at the position. -/
theorem emitted (d : Delivery s ⟨⟨l, f, w⟩, h⟩) (hfits : w.broker.Fits) {p : Partition}
    {r : Record} {records : List Record} {rest : List Polled} {failure : Option SourceError}
    (hs : l.stage = .delivering p (r :: records) rest failure)
    (hskip : ¬ r.offset < (l.positions.get? p).getD 0)
    (hr : Regular s
      ⟨⟨{ l with
          stage := .delivering p records rest failure
          positions := l.positions.insert p (Position.afterCapped r.offset) },
        { f with offsets := (f.offsets.advance p r.offset).2 }, w⟩, h ++ [.emitted p r]⟩) :
    Delivery s
      ⟨⟨{ l with
          stage := .delivering p records rest failure
          positions := l.positions.insert p (Position.afterCapped r.offset) },
        { f with offsets := (f.offsets.advance p r.offset).2 }, w⟩, h ++ [.emitted p r]⟩ := by
  have hstage := d.stage
  change l.stage.Deliverable w l.positions at hstage
  rw [hs] at hstage
  obtain ⟨⟨k, hle, hstretch⟩, hrest⟩ := hstage
  have hcovered := d.regular.consistent.covered
  change l.stage.Covered l.positions f.offsets at hcovered
  rw [hs] at hcovered
  obtain ⟨n, hn⟩ := SortedMap.contains_eq_true_iff.mp hcovered.1
  obtain ⟨last, hlast, hnext⟩ := d.position p n hn
  obtain ⟨start, hstart, hcount, hdone⟩ := d.offset p last hlast
  rw [hn, Option.getD_some] at hle hskip
  rw [Int64.not_lt, Int64.le_iff_toInt_le] at hskip
  cases hstretch with
  | cons hpartition hoffset hpayload htail =>
  change last.toInt + 1 = start + (h.recordsFrom p).length at hcount
  -- The record does not lie before the position, and what is pending does not begin after it.
  have hk : k = start + (h.recordsFrom p).length := by omega
  have hafter : (Position.afterCapped r.offset).toInt = (k + 1 : Nat) := by
    have hlength := hfits p
    have hlt := (List.getElem?_eq_some_iff.mp hpayload).1
    change k < (w.broker.log p).length at hlt
    rw [Position.toInt_afterCapped, hoffset, Int.natCast_succ]
    intro hmax
    rw [hmax, Int64.toInt_maxValue] at hoffset
    omega
  have hadmits : (Offset.concrete last).admits r.offset = true := by
    simp only [Offset.admits, decide_eq_true_eq, Int64.le_iff_toInt_le]
    omega
  have hself := OffsetState.get?_advance_self hlast hadmits
  have hother {q : Partition} (hq : q ≠ p) := f.offsets.get?_advance_of_ne r.offset hq
  have hpositions (q : Partition) :
      ((l.positions.get? q).getD 0).toInt ≤
        (((l.positions.insert p (Position.afterCapped r.offset)).get? q).getD 0).toInt := by
    rw [SortedMap.get?_insert]
    split
    next hq =>
      rw [hq, hn, Option.getD_some, Option.getD_some]
      omega
    next => exact Int.le_refl _
  constructor
  case regular => exact hr
  case grounded => exact d.grounded.append (by simp)
  case committed => exact d.committed
  case copies => exact d.copies.append (by simp)
  case offset =>
    intro q m hm
    simp only [FetchHistory.start_emitted, FetchHistory.recordsFrom_emitted]
    by_cases hq : q = p
    · subst hq
      obtain rfl := Offset.concrete.inj (Option.some.inj (hself.symm.trans hm))
      refine ⟨start, hstart, ?_, ?_⟩
      · rw [if_pos rfl, List.length_append, List.length_singleton]
        omega
      · rw [if_pos rfl]
        refine hdone.append (.cons hpartition ?_ ?_ (.nil _))
        · rw [hoffset, hk]
        · rw [← hk, hpayload]
    · obtain ⟨start, hstart, hcount, hdone⟩ := d.offset q m ((hother hq).symm.trans hm)
      rw [if_neg hq, List.append_nil]
      exact ⟨start, hstart, hcount, hdone⟩
  case position =>
    intro q m hm
    rcases SortedMap.of_get?_insert hm with ⟨rfl, rfl⟩ | ⟨hq, hm⟩
    · exact ⟨_, hself, by omega⟩
    · obtain ⟨last, hlast, hnext⟩ := d.position q m hm
      exact ⟨last, (hother hq).trans hlast, hnext⟩
  case stage =>
    refine ⟨⟨k + 1, ?_, htail⟩, fun o ho records hr => ?_⟩
    · change _ ≤ (((l.positions.insert p _).get? p).getD 0).toInt
      rw [SortedMap.get?_insert_self, Option.getD_some]
      omega
    · exact (hrest o ho records hr).mono (MemoryBroker.Extends.refl _) (hpositions o.partition)

theorem of_step (d : Delivery s ⟨⟨l, f, w⟩, h⟩) {now : Nat} {f' : Fetcher} {r : Option Record}
    (hstep : l.Step SharedBroker.client now f w l' f' w' r) (hfits : w'.broker.Fits) :
    Delivery s ⟨⟨l', f', w'⟩, h ++ (l.event? r).toList⟩ := by
  have hregular := d.regular.of_step hstep
  have hgrows := hstep.grows
  have hstage := d.stage
  change l.stage.Deliverable w l.positions at hstage
  cases hstep with
  | begun hs =>
    have hevent : l.event? none = none := by
      rcases hs with hs | ⟨wake, hs⟩ <;> simp [FetchLoop.event?, hs]
    apply d.moved hevent hregular hgrows (FetchLoop.beginRound_positions ..)
    rcases FetchLoop.beginRound_stage f now l with hr | hr
    · exact hr.deliverable ..
    · rw [hr]
      trivial
  | known hs =>
    exact d.moved (by simp [FetchLoop.event?, hs]) hregular hgrows rfl trivial
  | untracked hs | overflowed hs | unresolved hs =>
    exact d.moved (by simp [FetchLoop.event?, hs]) hregular hgrows
      (FetchLoop.failRound_positions ..) ((FetchLoop.failRound_resting ..).deliverable ..)
  | positioned hs hp ho hn => exact d.positioned hs ho hn hregular
  | @resolved _ p _ o n _ hs hp ho hsentinel hr =>
    refine d.moved (by simp [FetchLoop.event?, hs]) hregular hgrows rfl ?_
    -- The broker answers after a turn of the others, with its log as it is then.
    have hanswer : (w.turn.broker.resolve p o).1 = .ok n := congrArg Prod.fst hr
    have hbroker : (w.turn.broker.resolve p o).2 = w'.broker :=
      congrArg (fun x => x.2.broker) hr
    have hlogs := (MemoryBroker.resolve_keeps p o w.turn.broker).extends
    rw [hbroker] at hlogs
    exact MemoryBroker.resolve_nonneg (hfits.of_extends hlogs)
      (w.turn_grows.commitsPositions d.committed) hsentinel hanswer
  | polled hs hp =>
    refine d.moved (by simp [FetchLoop.event?, hs]) hregular hgrows rfl ?_
    intro o ho records hr
    refine ⟨_, ?_, (FetchLoop.pollAll_stretch hp).2 hfits o ho records hr⟩
    have hnonneg := d.nonneg o.partition
    omega
  | @recorded _ _ p n hs =>
    rw [show l.event? none = some (.resolved p n) by simp [FetchLoop.event?, hs]] at hregular ⊢
    exact d.recorded hs hregular
  | settled hs =>
    rw [hs] at hstage
    exact d.moved (by simp [FetchLoop.event?, hs]) hregular hgrows
      (FetchLoop.settle_positions ..)
      (FetchLoop.deliverable_of_delivering hstage (FetchLoop.settle_stage ..))
  | delivered hs =>
    rw [hs] at hstage
    exact d.moved (by simp [FetchLoop.event?, hs]) hregular hgrows
      (FetchLoop.settleRest_positions ..)
      (FetchLoop.deliverable_of_delivering hstage.2 (FetchLoop.settleRest_stage ..))
  | @skipped p r records rest failure hs hr =>
    rw [hs] at hstage
    obtain ⟨⟨start, hle, hstretch⟩, hrest⟩ := hstage
    cases hstretch with
    | cons _ hoffset _ htail =>
      -- The skipped record lies before the position, so the next one does not begin after it.
      refine d.moved (by simp [FetchLoop.event?, hs]) hregular hgrows rfl
        ⟨⟨start + 1, ?_, htail⟩, hrest⟩
      rw [Int64.lt_iff_toInt_lt, hoffset] at hr
      omega
  | dropped hs hc =>
    exact d.moved (by simp [FetchLoop.event?, hs]) hregular hgrows rfl trivial
  | @emitted p r _ _ _ hs hr hc =>
    rw [show l.event? (some r) = some (.emitted p r) by simp [FetchLoop.event?, hs]] at hregular ⊢
    exact d.emitted hfits hs hr hregular
  | ended hs =>
    exact d.moved (by simp [FetchLoop.event?, hs]) hregular hgrows rfl hstage

/-- New partitions are read from their beginnings, and nothing changes for those that are tracked. -/
theorem added (d : Delivery s ⟨⟨l, f, w⟩, h⟩) (found : List Partition) :
    Delivery s (FetchTrace.perform SharedBroker.client ⟨⟨l, f, w⟩, h⟩ (.add .earliest found)) := by
  have hadded := OffsetState.get?_addPartitions f.offsets .earliest found
  have hquiet := FetchHistory.recordsFrom_append_of_quiet h (e := .added found .earliest) (by simp)
  constructor
  case regular =>
    exact d.regular.add SharedBroker.client (show Offset.earliest.Storable from trivial) found
  case grounded => exact d.grounded.append (by simp)
  case committed => exact d.committed
  case copies => exact d.copies.append (by simp)
  case offset =>
    intro p last hlast
    -- A partition that is new has a sentinel, so this one was tracked before.
    have hbefore : f.offsets.get? p = some (.concrete last) := by
      rcases Option.or_eq_some_iff.mp ((hadded p).symm.trans hlast) with ho | ⟨-, ho⟩
      · exact ho
      · split at ho <;> cases ho
    obtain ⟨start, hstart, hcount, hdone⟩ := d.offset p last hbefore
    refine ⟨start, FetchHistory.start_added hstart found .earliest, ?_, ?_⟩
    · exact (hquiet p).symm ▸ hcount
    · exact (hquiet p).symm ▸ hdone
  case position =>
    intro p n hn
    obtain ⟨last, hlast, hnext⟩ := d.position p n hn
    exact ⟨last, (hadded p).trans (Option.or_eq_some_iff.mpr (.inl hlast)), hnext⟩
  case stage => exact d.stage

theorem copied (d : Delivery s ⟨⟨l, f, w⟩, h⟩) :
    Delivery s (FetchTrace.perform SharedBroker.client ⟨⟨l, f, w⟩, h⟩ .copy) := by
  have hquiet := FetchHistory.recordsFrom_append_of_quiet h (e := .copied f.offsets) (by simp)
  constructor
  case regular => exact d.regular.copy SharedBroker.client
  case grounded => exact d.grounded.append (by simp)
  case committed => exact d.committed
  case copies =>
    apply d.copies.append
    intro c hc
    obtain rfl := FetchEvent.copied.inj (List.mem_singleton.mp hc)
    exact (d.regular.grounded d.grounded).offsets
  case offset =>
    intro p last hlast
    obtain ⟨start, hstart, hcount, hdone⟩ := d.offset p last hlast
    refine ⟨start, (FetchHistory.start_copied s h f.offsets p).trans hstart, ?_, ?_⟩
    · exact (hquiet p).symm ▸ hcount
    · exact (hquiet p).symm ▸ hdone
  case position => exact d.position
  case stage => exact d.stage

theorem cancelled {t : FetchTrace SharedBroker} (d : t.Delivery s) :
    Delivery s { t with run := t.run.cancel } :=
  ⟨d.regular.cancelled, d.grounded, d.committed, d.copies, d.offset, d.position, d.stage⟩

/-- What others do to the broker does not matter, as long as no log loses records and the group commits
no negative position. -/
theorem inWorld {t : FetchTrace SharedBroker} (d : t.Delivery s)
    (hlogs : t.run.world.broker.Extends w.broker) (hw : w.broker.CommitsPositions) :
    (t.inWorld w).Delivery s where
  regular := d.regular.inWorld w
  grounded := d.grounded
  committed := hw
  copies := d.copies
  offset p last hlast := by
    obtain ⟨start, hstart, hcount, hdone⟩ := d.offset p last hlast
    exact ⟨start, hstart, hcount, hdone.mono (hlogs p)⟩
  position := d.position
  stage := d.stage.grow hlogs

theorem committing {t : FetchTrace SharedBroker} (d : t.Delivery s) {copied : OffsetState}
    {positions : OffsetMap} (hc : .copied copied ∈ t.history)
    (hp : Fetcher.positionsAfter (OffsetState.concreteOffsets copied) = .ok positions) :
    (t.inWorld (SharedBroker.client.commit positions t.run.world).2).Delivery s := by
  apply d.inWorld (SharedBroker.commit_extends positions t.run.world)
  refine MemoryBroker.commit_commitsPositions
    (t.run.world.turn_grows.commitsPositions d.committed) fun p n hn => ?_
  obtain ⟨last, hlast, hafter⟩ := Fetcher.get?_of_positionsAfter hp hn
  exact Position.nonneg_of_after? hafter ((d.copies copied hc).concreteOffsets hlast)

/-- At the beginning each concrete offset is the one before its start. -/
theorem begin (settings : FetchSettings) (hs : s.Storable) (hw : w.broker.CommitsPositions) :
    (FetchTrace.begin { settings := settings, offsets := s } w).Delivery s where
  regular := .begin settings w hs
  grounded _ _ hn := nomatch hn
  committed := hw
  copies _ hc := nomatch hc
  offset p last hlast := by
    have hlow : -1 ≤ last.toInt := by
      have hstorable := Int64.le_iff_toInt_le.mp (hs p _ hlast)
      rwa [show (-1 : Int64).toInt = -1 by decide] at hstorable
    have hlast : s.get? p = some (.concrete last) := hlast
    -- Nothing was consumed before position 0 if the offset is -1.
    refine ⟨(last.toInt + 1).toNat, ?_, ?_, .nil _⟩
    · rw [Int.toNat_of_nonneg (by omega)]
      simp [FetchTrace.begin, FetchHistory.start, FetchHistory.origin, hlast]
    · change _ = _ + ((0 : Nat) : Int)
      omega
  position _ _ hn := nomatch hn
  stage := trivial

/-- Where records were emitted, the offset is that of the last one. -/
theorem stretch_of_getLast? {t : FetchTrace SharedBroker} (d : t.Delivery s) {p : Partition}
    {r : Record} (hr : (t.history.recordsFrom p).getLast? = some r) :
    ∃ start : Nat, t.history.start s p = some (start : Int) ∧
      Stretch (t.run.world.broker.log p) p start (t.history.recordsFrom p) := by
  have hentry : t.run.fetcher.offsets.get? p = some (.concrete r.offset) := by
    rw [d.regular.consistent.entry p, FetchHistory.entry, hr]
  obtain ⟨start, hstart, -, hdone⟩ := d.offset p r.offset hentry
  exact ⟨start, hstart, hdone⟩

/-- Records claim to be from the partition that they were polled from. -/
theorem partition_of_emitted {t : FetchTrace SharedBroker} (d : t.Delivery s) {p : Partition}
    {r : Record} (hr : .emitted p r ∈ t.history) : r.partition = p := by
  have hmem : r ∈ t.history.recordsFrom p := FetchHistory.mem_recordsFrom.mpr hr
  obtain ⟨last, hlast⟩ := Option.isSome_iff_exists.mp
    (List.getLast?_isSome.mpr (List.ne_nil_of_mem hmem))
  obtain ⟨start, -, hdone⟩ := d.stretch_of_getLast? hlast
  obtain ⟨i, hi⟩ := List.mem_iff_getElem?.mp hmem
  exact (hdone.getElem? hi).1

/-- A partition that came with an offset is delivered from the record after it on. -/
theorem stretch_of_concrete {t : FetchTrace SharedBroker} (d : t.Delivery s) {p : Partition}
    {last : Int64} (hlast : s.get? p = some (.concrete last)) {start : Nat}
    (hstart : last.toInt + 1 = start) :
    Stretch (t.run.world.broker.log p) p start (t.history.recordsFrom p) := by
  cases hr : (t.history.recordsFrom p).getLast? with
  | none =>
    rw [List.getLast?_eq_none_iff.mp hr]
    exact .nil start
  | some r =>
    obtain ⟨first, hfirst, hdone⟩ := d.stretch_of_getLast? hr
    have horigin : t.history.start s p = some (last.toInt + 1) := by
      rw [FetchHistory.start, FetchHistory.origin, hlast]
      rfl
    have hsame : start = first := by
      have h := Option.some.inj (horigin.symm.trans hfirst)
      omega
    rwa [hsame]

end FetchTrace.Delivery

end CheckpointedLog
