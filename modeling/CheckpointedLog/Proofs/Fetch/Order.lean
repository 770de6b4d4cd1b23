import CheckpointedLog.Proofs.Fetch.Onward

/-!
Records of a partition are delivered in order. Whatever a broker answers, a record below the position
of its partition is skipped, and the position stays ahead of every record that was emitted. It only has
to be able to get ahead: there is no position after the greatest offset.
-/
namespace CheckpointedLog

variable {ω : Type}

/-- The records that were polled and not yet looked at satisfy `P`. -/
def FetchStage.AllPending (P : Record → Prop) : FetchStage → Prop
  | .awaiting outcomes _ => ∀ o ∈ outcomes, ∀ records, o.records = .ok records → ∀ r ∈ records, P r
  | .delivering _ records rest _ => (∀ r ∈ records, P r) ∧
    ∀ o ∈ rest, ∀ records, o.records = .ok records → ∀ r ∈ records, P r
  | _ => True

variable {P : Record → Prop}

theorem FetchStage.Resting.allPending {stage : FetchStage} (h : stage.Resting) :
    stage.AllPending P := by
  cases stage with
  | idle | pausing | finished => trivial
  | _ => exact h.elim

namespace FetchLoop

theorem allPending_of_delivering {stage : FetchStage} {outcomes : List Polled}
    (ho : ∀ o ∈ outcomes, ∀ records, o.records = .ok records → ∀ r ∈ records, P r)
    (h : stage.Resting ∨ ∃ o records rest failure, o ∈ outcomes ∧ rest ⊆ outcomes ∧
      o.records = .ok records ∧ stage = .delivering o.partition records rest failure) :
    stage.AllPending P := by
  rcases h with h | ⟨o, records, rest, failure, hmem, hsub, hrecords, rfl⟩
  · exact h.allPending
  · refine ⟨ho o hmem records hrecords, ?_⟩
    intro x hx
    exact ho x (hsub hx)

/-- What holds of all records that a client returns holds of those that wait. -/
theorem Step.allPending {client : BrokerClient ω}
    (hclient : ∀ p n timeoutMs w records, (client.poll p n timeoutMs w).1.records = .ok records →
      ∀ r ∈ records, P r)
    {now : Nat} {l l' : FetchLoop} {f f' : Fetcher} {w w' : ω} {r : Option Record}
    (hstep : l.Step client now f w l' f' w' r) (h : l.stage.AllPending P) :
    l'.stage.AllPending P := by
  cases hstep with
  | begun =>
    rcases beginRound_stage f now l with hr | hr
    · exact hr.allPending
    · rw [hr]
      trivial
  | untracked | overflowed | unresolved => exact (failRound_resting ..).allPending
  | known | positioned | resolved | recorded | dropped => trivial
  | @polled _ outcomes _ _ _ hp =>
    intro o ho records hrecords
    rw [show outcomes = _ from (congrArg Prod.fst hp).symm] at ho
    obtain ⟨v, hv⟩ := exists_poll_of_mem_pollAll ho
    exact hclient _ _ _ _ _ (hv.symm.trans hrecords)
  | settled hs =>
    rw [hs] at h
    exact allPending_of_delivering h (settle_stage ..)
  | delivered hs =>
    rw [hs] at h
    exact allPending_of_delivering h.2 (settleRest_stage ..)
  | skipped hs | emitted hs =>
    rw [hs] at h
    exact ⟨fun x hx => h.1 x (List.mem_cons_of_mem _ hx), h.2⟩
  | ended => exact h

end FetchLoop

/-- What was seen of a partition that is read next from `position` on, once this is known. -/
structure FetchHistory.InOrder (s : OffsetState) (h : FetchHistory) (p : Partition)
    (position : Option Position) : Prop where
  unread : position = none → h.recordsFrom p = [] ∧ h.resolutions p = []
  read : ∀ n, position = some n → ∃ first, h.start s p = some first ∧ first ≤ n.toInt ∧
    ∀ r ∈ h.recordsFrom p, first ≤ r.offset.toInt ∧ r.offset < n
  increasing : (h.recordsFrom p).Pairwise fun a b => a.offset < b.offset
  resolved : ∀ n ∈ h.resolutions p, h.start s p = some n.toInt

namespace FetchHistory.InOrder

variable {s : OffsetState} {h h' : FetchHistory} {p : Partition} {position : Option Position}
  {n : Position} {r : Record} {q : Partition}

/-- As long as a partition is neither positioned nor read, it stays in order. -/
theorem of_same (i : h.InOrder s p position)
    (hstart : ∀ first, h.start s p = some first → h'.start s p = some first)
    (hrecords : h'.recordsFrom p = h.recordsFrom p)
    (hresolutions : h'.resolutions p = h.resolutions p) : h'.InOrder s p position where
  unread := by
    rw [hrecords, hresolutions]
    exact i.unread
  read := by
    intro n hn
    obtain ⟨first, hfirst, hle, hbetween⟩ := i.read n hn
    rw [hrecords]
    exact ⟨first, hstart first hfirst, hle, hbetween⟩
  increasing := by
    rw [hrecords]
    exact i.increasing
  resolved := by
    intro n hn
    rw [hresolutions] at hn
    exact hstart _ (i.resolved n hn)

theorem recorded_of_ne (i : h.InOrder s p position) (hp : p ≠ q) (n : Position) :
    FetchHistory.InOrder s (h ++ [.resolved q n]) p position := by
  apply i.of_same
  · intro first hfirst
    exact (start_resolved_of_ne s h n hp).trans hfirst
  · exact recordsFrom_append_of_quiet h (by simp) p
  · simp [resolutions, Ne.symm hp]

theorem emitted_of_ne (i : h.InOrder s p position) (hp : p ≠ q) (r : Record) :
    FetchHistory.InOrder s (h ++ [.emitted q r]) p position := by
  apply i.of_same
  · intro first hfirst
    exact (start_emitted s h q r p).trans hfirst
  · simp [recordsFrom, Ne.symm hp]
  · simp [resolutions]

theorem copied (i : h.InOrder s p position) (t : OffsetState) :
    FetchHistory.InOrder s (h ++ [.copied t]) p position := by
  apply i.of_same
  · intro first hfirst
    exact (start_copied s h t p).trans hfirst
  · exact recordsFrom_append_of_quiet h (by simp) p
  · simp [resolutions]

theorem added (i : h.InOrder s p position) (ps : List Partition) (o : Offset) :
    FetchHistory.InOrder s (h ++ [.added ps o]) p position := by
  apply i.of_same
  · intro first hfirst
    exact start_added hfirst ps o
  · exact recordsFrom_append_of_quiet h (by simp) p
  · simp [resolutions]

theorem positioned (i : h.InOrder s p none) (hstart : h.start s p = some n.toInt) :
    h.InOrder s p (some n) where
  unread := nofun
  read := by
    intro m hm
    obtain rfl := Option.some.inj hm
    refine ⟨n.toInt, hstart, Int.le_refl _, ?_⟩
    rw [(i.unread rfl).1]
    exact nofun
  increasing := i.increasing
  resolved := i.resolved

theorem recorded {o : Offset} (i : h.InOrder s p none) (horigin : h.origin s p = some o)
    (hsentinel : o.isSentinel = true) (n : Position) :
    FetchHistory.InOrder s (h ++ [.resolved p n]) p (some n) := by
  obtain ⟨hrecords, hresolutions⟩ := i.unread rfl
  have hstart := start_resolved_self n horigin hsentinel
  have hquiet := recordsFrom_append_of_quiet h (e := .resolved p n) (by simp) p
  rw [hrecords] at hquiet
  constructor
  case unread => exact nofun
  case read =>
    intro m hm
    obtain rfl := Option.some.inj hm
    refine ⟨n.toInt, hstart, Int.le_refl _, ?_⟩
    rw [hquiet]
    exact nofun
  case increasing =>
    rw [hquiet]
    exact .nil
  case resolved =>
    intro m hm
    rw [resolutions_append, hresolutions] at hm
    obtain rfl : m = n := by simpa [resolutions] using hm
    exact hstart

/-- A record at the position or after it is the greatest one so far, and the position gets ahead of
it. -/
theorem emitted (i : h.InOrder s p (some n)) (hn : n ≤ r.offset) (hmax : r.offset < Int64.maxValue) :
    FetchHistory.InOrder s (h ++ [.emitted p r]) p (some (Position.afterCapped r.offset)) := by
  obtain ⟨first, hfirst, hle, hbetween⟩ := i.read n rfl
  have hlast : first ≤ r.offset.toInt := by
    rw [Int64.le_iff_toInt_le] at hn
    omega
  have hahead : r.offset < Position.afterCapped r.offset := by
    apply Position.lt_afterCapped
    intro he
    rw [he] at hmax
    exact Int64.lt_irrefl hmax
  have hrecords : recordsFrom (h ++ [.emitted p r]) p = recordsFrom h p ++ [r] := by
    rw [recordsFrom_emitted, if_pos rfl]
  constructor
  case unread => exact nofun
  case read =>
    intro m hm
    obtain rfl := Option.some.inj hm
    refine ⟨first, ?_, ?_, ?_⟩
    · rw [start_emitted]
      exact hfirst
    · rw [Int64.lt_iff_toInt_lt] at hahead
      omega
    · intro x hx
      rw [hrecords] at hx
      rcases List.mem_append.mp hx with hx | hx
      · have hbefore := hbetween x hx
        exact ⟨hbefore.1, Int64.lt_trans (Int64.lt_of_lt_of_le hbefore.2 hn) hahead⟩
      · obtain rfl := List.mem_singleton.mp hx
        exact ⟨hlast, hahead⟩
  case increasing =>
    rw [hrecords]
    refine List.pairwise_append.mpr ⟨i.increasing, List.pairwise_singleton _ _, ?_⟩
    intro x hx y hy
    obtain rfl := List.mem_singleton.mp hy
    exact Int64.lt_of_lt_of_le (hbetween x hx).2 hn
  case resolved =>
    intro m hm
    rw [resolutions_append] at hm
    rw [start_emitted]
    exact i.resolved m (by simpa [resolutions] using hm)

end FetchHistory.InOrder

/-- What holds of a run that began at the offsets `s`, as long as no record has the greatest offset. -/
structure FetchTrace.Ordered (s : OffsetState) (t : FetchTrace ω) : Prop where
  pending : t.run.loop.stage.AllPending fun r => r.offset < Int64.maxValue
  inOrder : ∀ p, t.history.InOrder s p (t.run.loop.positions.get? p)

namespace FetchTrace.Ordered

variable {s : OffsetState} {l l' : FetchLoop} {f f' : Fetcher} {w w' : ω} {h : FetchHistory}
  {p : Partition} {x : Option Record}

/-- The offset of a partition that was not read is the one that it came with. -/
theorem origin_of_unread (o : Ordered s ⟨⟨l, f, w⟩, h⟩) (c : Consistent s ⟨⟨l, f, w⟩, h⟩)
    (hp : l.positions.get? p = none) : h.origin s p = f.offsets.get? p := by
  obtain ⟨hrecords, hresolutions⟩ := (o.inOrder p).unread hp
  have hentry := c.entry p
  rw [FetchHistory.entry, hrecords, hresolutions] at hentry
  exact hentry.symm

theorem of_step (o : Ordered s ⟨⟨l, f, w⟩, h⟩) (c : Consistent s ⟨⟨l, f, w⟩, h⟩)
    {client : BrokerClient ω}
    (hclient : ∀ p n timeoutMs w records, (client.poll p n timeoutMs w).1.records = .ok records →
      ∀ r ∈ records, r.offset < Int64.maxValue)
    {now : Nat} (hstep : l.Step client now f w l' f' w' x) :
    Ordered s ⟨⟨l', f', w'⟩, h ++ (l.event? x).toList⟩ := by
  have hcovered := c.covered
  change l.stage.Covered l.positions f.offsets at hcovered
  have hpending := o.pending
  change l.stage.AllPending _ at hpending
  refine ⟨hstep.allPending hclient hpending, ?_⟩
  intro p
  have i := o.inOrder p
  change h.InOrder s p (l.positions.get? p) at i
  change FetchHistory.InOrder s (h ++ (l.event? x).toList) p (l'.positions.get? p)
  have quiet (he : l.event? x = none) (hp : l'.positions = l.positions) :
      FetchHistory.InOrder s (h ++ (l.event? x).toList) p (l'.positions.get? p) := by
    rw [he, hp, Option.toList_none, List.append_nil]
    exact i
  -- Only three cases position a partition; they leave all others as they are.
  cases hstep with
  | begun hs =>
    apply quiet _ (FetchLoop.beginRound_positions ..)
    rcases hs with hs | ⟨wake, hs⟩ <;> simp [FetchLoop.event?, hs]
  | untracked hs | overflowed hs | unresolved hs =>
    exact quiet (by simp [FetchLoop.event?, hs]) (FetchLoop.failRound_positions ..)
  | settled hs => exact quiet (by simp [FetchLoop.event?, hs]) (FetchLoop.settle_positions ..)
  | delivered hs => exact quiet (by simp [FetchLoop.event?, hs]) (FetchLoop.settleRest_positions ..)
  | known hs | resolved hs | polled hs | skipped hs | dropped hs | ended hs =>
    exact quiet (by simp [FetchLoop.event?, hs]) rfl
  | @positioned _ q _ last n hs hq hlast hn =>
    rw [show l.event? none = none by simp [FetchLoop.event?, hs], Option.toList_none, List.append_nil]
    by_cases hp : p = q
    · subst hp
      have hnone : l.positions.get? p = none := SortedMap.contains_eq_false_iff.mp hq
      have horigin := (o.origin_of_unread c hnone).trans hlast
      have hstart : h.start s p = some n.toInt := by
        rw [FetchHistory.start, horigin, Position.toInt_after? hn]
      rw [hnone] at i
      rw [SortedMap.get?_insert_self]
      exact i.positioned hstart
    · rw [SortedMap.get?_insert_of_ne l.positions n hp]
      exact i
  | @recorded _ _ q n hs =>
    rw [show l.event? none = some (.resolved q n) by simp [FetchLoop.event?, hs]]
    by_cases hp : p = q
    · subst hp
      rw [hs] at hcovered
      obtain ⟨-, a, ha, hsentinel⟩ := hcovered
      have hnone : l.positions.get? p = none := by
        apply Option.eq_none_iff_forall_ne_some.mpr
        intro m hm
        -- A partition with a position has a concrete offset.
        obtain ⟨last, hlast, -⟩ := c.position p m hm
        obtain rfl := Option.some.inj (ha.symm.trans hlast)
        cases hsentinel
      have horigin := (o.origin_of_unread c hnone).trans ha
      rw [hnone] at i
      rw [SortedMap.get?_insert_self]
      exact i.recorded horigin hsentinel n
    · rw [SortedMap.get?_insert_of_ne l.positions n hp]
      exact i.recorded_of_ne hp n
  | @emitted q r _ _ _ hs hr hc =>
    rw [show l.event? (some r) = some (.emitted q r) by simp [FetchLoop.event?, hs]]
    by_cases hp : p = q
    · subst hp
      rw [hs] at hcovered hpending
      obtain ⟨n, hn⟩ := SortedMap.contains_eq_true_iff.mp hcovered.1
      rw [hn, Option.getD_some, Int64.not_lt] at hr
      have hmax := hpending.1 r (List.mem_cons_self ..)
      rw [hn] at i
      rw [SortedMap.get?_insert_self]
      exact i.emitted hr hmax
    · rw [SortedMap.get?_insert_of_ne l.positions _ hp]
      exact i.emitted_of_ne hp r

theorem perform {t : FetchTrace ω} (o : t.Ordered s) (c : t.Consistent s) {client : BrokerClient ω}
    (hclient : ∀ p n timeoutMs w records, (client.poll p n timeoutMs w).1.records = .ok records →
      ∀ r ∈ records, r.offset < Int64.maxValue)
    (a : FetchAction ω) : (t.perform client a).Ordered s := by
  cases a with
  | step now =>
    exact o.of_step c hclient (FetchLoop.step_cases client now t.run.loop t.run.fetcher t.run.world)
  | copy => exact ⟨o.pending, fun p => (o.inOrder p).copied t.run.fetcher.offsets⟩
  | add a ps => exact ⟨o.pending, fun p => (o.inOrder p).added ps a⟩
  | cancel | world w =>
    simp only [FetchTrace.perform, FetchRun.perform, Option.toList_none, List.append_nil]
    exact ⟨o.pending, o.inOrder⟩

theorem performAll {t : FetchTrace ω} (o : t.Ordered s) (c : t.Consistent s) {client : BrokerClient ω}
    (hclient : ∀ p n timeoutMs w records, (client.poll p n timeoutMs w).1.records = .ok records →
      ∀ r ∈ records, r.offset < Int64.maxValue)
    (actions : List (FetchAction ω)) : (t.performAll client actions).Ordered s := by
  induction actions generalizing t with
  | nil => exact o
  | cons a actions ih => exact ih (o.perform c hclient a) (c.perform client a)

theorem begin (f : Fetcher) (w : ω) : (FetchTrace.begin f w).Ordered f.offsets where
  pending := trivial
  inOrder p := by
    constructor
    case unread => exact fun _ => ⟨rfl, rfl⟩
    case read => exact nofun
    case increasing => exact .nil
    case resolved => exact nofun

end FetchTrace.Ordered

namespace FetchTrace

/-- Whatever a client answers, as long as no record has the greatest offset: the records of a partition
are emitted in the order of their offsets, none of them twice, and none of them is before the place where
the partition starts. This is the position to which its sentinel was resolved, or the one after its
concrete offset at any moment before it is read. -/
theorem records_increase_from_start {client : BrokerClient ω}
    (hclient : ∀ p n timeoutMs w records, (client.poll p n timeoutMs w).1.records = .ok records →
      ∀ r ∈ records, r.offset < Int64.maxValue)
    (f : Fetcher) (w : ω) (actions : List (FetchAction ω)) (p : Partition) :
    let t := (begin f w).performAll client actions
    ((t.history.recordsFrom p).map (·.offset)).Pairwise (· < ·) ∧
      (∀ r ∈ t.history.recordsFrom p,
        ∃ first, t.history.start f.offsets p = some first ∧ first ≤ r.offset.toInt) ∧
      (∀ n, .resolved p n ∈ t.history → t.history.start f.offsets p = some n.toInt) ∧
      ∀ before after last, actions = before ++ after →
        let earlier := (begin f w).performAll client before
        earlier.run.loop.positions.get? p = none →
          earlier.run.fetcher.offsets.get? p = some (.concrete last) →
            t.history.start f.offsets p = some (last.toInt + 1) := by
  intro t
  have hbegin := Ordered.begin f w
  have cbegin := Consistent.begin f w
  have i := (hbegin.performAll cbegin hclient actions).inOrder p
  refine ⟨List.pairwise_map.mpr i.increasing, ?_, ?_, ?_⟩
  · intro r hr
    cases hp : t.run.loop.positions.get? p with
    | none =>
      rw [(i.unread hp).1] at hr
      cases hr
    | some n =>
      obtain ⟨first, hfirst, -, hbetween⟩ := i.read n hp
      exact ⟨first, hfirst, (hbetween r hr).1⟩
  · intro n hn
    apply i.resolved n
    rw [FetchHistory.resolutions, List.mem_filterMap]
    exact ⟨_, hn, if_pos rfl⟩
  · intro before after last hsplit earlier hp hlast
    have horder : earlier.Ordered f.offsets := hbegin.performAll cbegin hclient before
    have hconsistent : earlier.Consistent f.offsets := cbegin.performAll client before
    have horigin : FetchHistory.origin f.offsets earlier.history p = some (.concrete last) :=
      (horder.origin_of_unread hconsistent hp).trans hlast
    obtain ⟨events, hevents⟩ := earlier.exists_history_append client after
    have hfinal : t.history = earlier.history ++ events := by
      rw [← hevents, ← performAll_append, ← hsplit]
    rw [FetchHistory.start, hfinal, FetchHistory.origin_append horigin]

/-- A client that always gives the same records, in disorder and one of them twice: those before the
position that it found are skipped, and so is everything in the second round. -/
theorem records_increase_from_start_of_disorder :
    let p : Partition := ⟨"t", 0⟩
    let client : BrokerClient Unit :=
      { listTopics := fun _ => (.ok [], ())
        listPartitions := fun _ _ => (.ok [p], ())
        resolve := fun _ _ _ => (.ok 6, ())
        poll := fun _ _ _ _ =>
          ({ records := .ok [⟨p, 7, []⟩, ⟨p, 5, []⟩, ⟨p, 7, []⟩, ⟨p, 9, []⟩, ⟨p, 8, []⟩] }, ())
        commit := fun _ _ => (.ok (), ())
        close := fun _ => (.ok (), ()) }
    let f : Fetcher := { settings := ⟨10, {}⟩, offsets := SortedMap.empty.insert p .earliest }
    let t := (begin f ()).performAll client (List.replicate 20 (.step 0))
    (t.history.recordsFrom p).map (·.offset) = [7, 9] ∧
      ((t.history.recordsFrom p).map (·.offset)).Pairwise (· < ·) ∧
      ∀ r ∈ t.history.recordsFrom p,
        ∃ first, t.history.start f.offsets p = some first ∧ first ≤ r.offset.toInt := by
  intro p client f t
  have hclient : ∀ q n timeoutMs w records, (client.poll q n timeoutMs w).1.records = .ok records →
      ∀ r ∈ records, r.offset < Int64.maxValue := by
    intro q n timeoutMs w records hrecords
    obtain rfl := Except.ok.inj hrecords
    decide
  have hemitted : (t.history.recordsFrom p).map (·.offset) = [7, 9] := by
    decide +kernel
  obtain ⟨hincreasing, hstarted, -, -⟩ :=
    records_increase_from_start hclient f () (List.replicate 20 (.step 0)) p
  exact ⟨hemitted, hincreasing, hstarted⟩

end FetchTrace

end CheckpointedLog
