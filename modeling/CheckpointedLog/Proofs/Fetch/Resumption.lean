import CheckpointedLog.Proofs.Fetch.Consistency

/-!
Where fetching goes on. The loop reads a partition from a position that it keeps to itself; a fetcher that
is built from a copy of the offsets reads it from the position after its offset. The two are the same as
long as there is a position after the last record, and an offset before the position that the broker
found. At the limits of the numbers they are not: there the loop caps, and the new fetcher fails or begins
one later.
-/
namespace CheckpointedLog

variable {ω : Type}

namespace Position

theorem after?_eq_afterCapped {last : Int64} (h : last ≠ Int64.maxValue) :
    after? last = some (afterCapped last) := by
  rw [after?, afterCapped, if_neg h, if_neg h]

/-- The position after the offset before a position is this position. -/
theorem after?_beforeCapped {n : Position} (h : n ≠ Int64.minValue) :
    after? (beforeCapped n) = some n := by
  rw [after?_eq_some_iff, beforeCapped, if_neg h, toInt_sub_one h]
  omega

/-- The number `a` is below `b`, or both are the greatest one. -/
def Precedes (a b : Int64) : Prop := a < b ∨ a = Int64.maxValue ∧ b = Int64.maxValue

theorem eq_maxValue_of_le {b : Int64} (h : Int64.maxValue ≤ b) : b = Int64.maxValue := by
  have hhigh := b.toInt_lt
  apply Int64.toInt_inj.mp
  rw [Int64.le_iff_toInt_le, Int64.toInt_maxValue] at h
  rw [Int64.toInt_maxValue]
  omega

theorem Precedes.of_le {a n b : Int64} (h : Precedes a n) (hn : n ≤ b) : Precedes a b := by
  rcases h with h | ⟨ha, rfl⟩
  · exact Or.inl (Int64.lt_of_lt_of_le h hn)
  · exact Or.inr ⟨ha, eq_maxValue_of_le hn⟩

theorem precedes_afterCapped (a : Int64) : Precedes a (afterCapped a) := by
  by_cases h : a = Int64.maxValue
  · exact Or.inr ⟨h, (if_pos h).trans h⟩
  · left
    rw [Int64.lt_iff_toInt_lt, toInt_afterCapped h]
    omega

end Position

/-- The position from which the next step of the loop polls a partition, if it polls it. -/
def FetchLoop.pollOf? (p : Partition) (l : FetchLoop) : Option Position :=
  match l.stage with
  | .positioning round [] => if p ∈ round then some ((l.positions.get? p).getD 0) else none
  | _ => none

/-- What an action does to a partition of a run: the position after it, and what is remembered of it. -/
inductive FetchLoop.Effect (l : FetchLoop) (f : Fetcher) (p : Partition) :
    Option Position → FetchHistory → Prop where
  | quiet {events : FetchHistory} (hrecords : events.recordsFrom p = [])
      (hresolutions : events.resolutions p = []) : Effect l f p (l.positions.get? p) events
  | positioned {last : Int64} {n : Position} (hp : l.positions.get? p = none)
      (ho : f.offsets.get? p = some (.concrete last)) (hn : Position.after? last = some n) :
      Effect l f p (some n) []
  | recorded {round todo : List Partition} {n : Position}
      (hs : l.stage = .recording round todo p n) : Effect l f p (some n) [.resolved p n]
  | emitted {r : Record} {records : List Record} {rest : List Polled} {failure : Option SourceError}
      (hs : l.stage = .delivering p (r :: records) rest failure)
      (hr : ¬ r.offset < (l.positions.get? p).getD 0) :
      Effect l f p (some (Position.afterCapped r.offset)) [.emitted p r]

theorem FetchLoop.Step.effect {client : BrokerClient ω} {now : Nat} {l l' : FetchLoop}
    {f f' : Fetcher} {w w' : ω} {x : Option Record} (h : l.Step client now f w l' f' w' x)
    (p : Partition) : l.Effect f p (l'.positions.get? p) (l.event? x).toList := by
  have quiet (he : l.event? x = none) (hp : l'.positions = l.positions) :
      l.Effect f p (l'.positions.get? p) (l.event? x).toList := by
    rw [he, hp]
    exact .quiet rfl rfl
  cases h with
  | begun hs =>
    apply quiet _ (beginRound_positions ..)
    rcases hs with hs | ⟨wake, hs⟩ <;> simp [event?, hs]
  | untracked hs | overflowed hs | unresolved hs =>
    exact quiet (by simp [event?, hs]) (failRound_positions ..)
  | settled hs => exact quiet (by simp [event?, hs]) (settle_positions ..)
  | delivered hs => exact quiet (by simp [event?, hs]) (settleRest_positions ..)
  | known hs | resolved hs | polled hs | skipped hs | dropped hs | ended hs =>
    exact quiet (by simp [event?, hs]) rfl
  -- The other steps position one partition.
  | @positioned _ q _ last n hs hq ho hn =>
    rw [show l.event? none = none by simp [event?, hs]]
    by_cases hp : p = q
    · subst hp
      rw [SortedMap.get?_insert_self]
      exact .positioned (SortedMap.contains_eq_false_iff.mp hq) ho hn
    · rw [SortedMap.get?_insert_of_ne l.positions n hp]
      exact .quiet rfl rfl
  | @recorded _ _ q n hs =>
    rw [show l.event? none = some (.resolved q n) by simp [event?, hs]]
    by_cases hp : p = q
    · subst hp
      rw [SortedMap.get?_insert_self]
      exact .recorded hs
    · rw [SortedMap.get?_insert_of_ne l.positions n hp]
      exact .quiet rfl (by simp [FetchHistory.resolutions, Ne.symm hp])
  | @emitted q r _ _ _ hs hr =>
    rw [show l.event? (some r) = some (.emitted q r) by simp [event?, hs]]
    by_cases hp : p = q
    · subst hp
      rw [SortedMap.get?_insert_self]
      exact .emitted hs hr
    · rw [SortedMap.get?_insert_of_ne l.positions _ hp]
      exact .quiet (by simp [FetchHistory.recordsFrom, Ne.symm hp]) rfl

theorem FetchTrace.perform_effect (client : BrokerClient ω) (t : FetchTrace ω) (a : FetchAction ω)
    (p : Partition) : ∃ events, (t.perform client a).history = t.history ++ events ∧
      t.run.loop.Effect t.run.fetcher p ((t.perform client a).run.loop.positions.get? p) events := by
  refine ⟨(t.run.perform client a).2.toList, rfl, ?_⟩
  cases a with
  | step now =>
    exact (FetchLoop.step_cases client now t.run.loop t.run.fetcher t.run.world).effect p
  | copy | add | cancel | world => exact .quiet rfl rfl

namespace FetchHistory

/-- The position that a partition has after a run that began at the offsets `s`: the one after its last
record, else the one to which its sentinel was resolved, else the one after the offset that it came with. -/
def next (s : OffsetState) (h : FetchHistory) (p : Partition) : Option Position :=
  match (h.recordsFrom p).getLast? with
  | some r => some (Position.afterCapped r.offset)
  | none =>
    match (h.resolutions p).getLast? with
    | some n => some n
    | none => ((h.origin s p).bind Offset.concrete?).bind Position.after?

/-- What was seen of a partition agrees with its position, once this is known. -/
structure Aligned (s : OffsetState) (h : FetchHistory) (p : Partition)
    (position : Option Position) : Prop where
  unread : position = none → h.recordsFrom p = [] ∧ h.resolutions p = []
  next : ∀ n, position = some n → h.next s p = some n
  /-- A partition that came with an offset has a position only if there is one after this offset. -/
  started : ∀ n, position = some n → ∃ o, h.origin s p = some o ∧
    ∀ last, o = .concrete last → Position.after? last ≠ none
  ahead : ∀ n, position = some n → ∀ r ∈ h.recordsFrom p, Position.Precedes r.offset n
  increasing : (h.recordsFrom p).Pairwise fun a b => Position.Precedes a.offset b.offset

namespace Aligned

variable {s : OffsetState} {h : FetchHistory} {p : Partition} {position : Option Position}

theorem begin (s : OffsetState) (p : Partition) : Aligned s [] p none :=
  ⟨fun _ => ⟨rfl, rfl⟩, nofun, nofun, nofun, .nil⟩

theorem quiet (a : h.Aligned s p position) {events : FetchHistory}
    (hrecords : events.recordsFrom p = []) (hresolutions : events.resolutions p = []) :
    Aligned s (h ++ events) p position := by
  have hrecords' : recordsFrom (h ++ events) p = h.recordsFrom p := by
    rw [recordsFrom_append, hrecords, List.append_nil]
  have hresolutions' : resolutions (h ++ events) p = h.resolutions p := by
    rw [resolutions_append, hresolutions, List.append_nil]
  constructor
  case unread =>
    rw [hrecords', hresolutions']
    exact a.unread
  case next =>
    intro n hn
    obtain ⟨o, ho, -⟩ := a.started n hn
    rw [← a.next n hn]
    rw [FetchHistory.next, FetchHistory.next, hrecords', hresolutions', origin_append ho, ho]
  case started =>
    intro n hn
    obtain ⟨o, ho, hlast⟩ := a.started n hn
    exact ⟨o, origin_append ho events, hlast⟩
  case ahead =>
    rw [hrecords']
    exact a.ahead
  case increasing =>
    rw [hrecords']
    exact a.increasing

/-- The first position of a partition that came with an offset is the one after it. -/
theorem positioned (a : h.Aligned s p none) {last : Int64} {n : Position}
    (ho : h.origin s p = some (.concrete last)) (hn : Position.after? last = some n) :
    h.Aligned s p (some n) := by
  obtain ⟨hrecords, hresolutions⟩ := a.unread rfl
  constructor
  case unread => exact nofun
  case next =>
    intro m hm
    rw [FetchHistory.next, hrecords, hresolutions, ho, ← hm]
    exact hn
  case started =>
    intro _ _
    refine ⟨_, ho, fun x hx hnone => ?_⟩
    obtain rfl := Offset.concrete.inj hx
    cases hn.symm.trans hnone
  case ahead =>
    rw [hrecords]
    exact nofun
  case increasing => exact a.increasing

theorem recorded {o : Offset} (hrecords : h.recordsFrom p = []) (ho : h.origin s p = some o)
    (hsentinel : o.isSentinel = true) (n : Position) :
    Aligned s (h ++ [.resolved p n]) p (some n) := by
  have hquiet : recordsFrom (h ++ [.resolved p n]) p = [] := by
    rw [recordsFrom_append_of_quiet h (by simp), hrecords]
  have hresolved : (resolutions (h ++ [.resolved p n]) p).getLast? = some n := by
    rw [resolutions_append]
    simp [resolutions]
  constructor
  case unread =>
    intro hnone
    cases hnone
  case next =>
    intro m hm
    rw [FetchHistory.next, hquiet, hresolved, hm]
    rfl
  case started =>
    intro _ _
    refine ⟨o, ?_, fun last hlast => ?_⟩
    · rw [origin_resolved, ho]
    · rw [hlast] at hsentinel
      cases hsentinel
  case ahead =>
    rw [hquiet]
    intro _ _ r hr
    cases hr
  case increasing =>
    rw [hquiet]
    exact .nil

theorem emitted {n : Position} (a : h.Aligned s p (some n)) {r : Record} (hr : n ≤ r.offset) :
    Aligned s (h ++ [.emitted p r]) p (some (Position.afterCapped r.offset)) := by
  have hrecords : recordsFrom (h ++ [.emitted p r]) p = h.recordsFrom p ++ [r] := by
    rw [recordsFrom_emitted, if_pos rfl]
  constructor
  case unread => exact nofun
  case next =>
    intro m hm
    rw [FetchHistory.next, hrecords, List.getLast?_concat]
    exact hm
  case started =>
    intro _ _
    rw [origin_emitted]
    exact a.started n rfl
  case ahead =>
    intro m hm x hx
    obtain rfl := Option.some.inj hm
    rw [hrecords] at hx
    rcases List.mem_append.mp hx with hx | hx
    · have hbefore := (a.ahead n rfl x hx).of_le hr
      exact hbefore.of_le (Position.le_afterCapped r.offset)
    · obtain rfl := List.mem_singleton.mp hx
      exact Position.precedes_afterCapped _
  case increasing =>
    rw [hrecords]
    refine List.pairwise_append.mpr ⟨a.increasing, List.pairwise_singleton _ _, ?_⟩
    intro x hx y hy
    obtain rfl := List.mem_singleton.mp hy
    exact (a.ahead n rfl x hx).of_le hr

end Aligned

end FetchHistory

/-- What holds of all partitions of a run that began at the offsets `s`, whatever the client answers. -/
def FetchTrace.AllAligned (s : OffsetState) (t : FetchTrace ω) : Prop :=
  ∀ p, t.history.Aligned s p (t.run.loop.positions.get? p)

namespace FetchTrace.AllAligned

variable {s : OffsetState} {t : FetchTrace ω}

theorem begin (f : Fetcher) (w : ω) : (FetchTrace.begin f w).AllAligned f.offsets :=
  fun p => .begin f.offsets p

/-- The offset of a partition without a position is the one that it came with. -/
theorem origin_of_unpositioned (a : t.AllAligned s) (c : t.Consistent s) {p : Partition}
    (hp : t.run.loop.positions.get? p = none) :
    t.history.origin s p = t.run.fetcher.offsets.get? p := by
  obtain ⟨hrecords, hresolutions⟩ := (a p).unread hp
  rw [c.entry p, FetchHistory.entry, hrecords, hresolutions]
  rfl

theorem perform (a : t.AllAligned s) (c : t.Consistent s) (client : BrokerClient ω)
    (action : FetchAction ω) : (t.perform client action).AllAligned s := by
  intro p
  obtain ⟨events, hhistory, heffect⟩ := t.perform_effect client action p
  rw [hhistory]
  have hp := a p
  have hcovered := c.covered
  generalize (t.perform client action).run.loop.positions.get? p = position at heffect
  cases heffect with
  | quiet hrecords hresolutions => exact hp.quiet hrecords hresolutions
  | positioned hnone ho hn =>
    rw [List.append_nil]
    have horigin := (a.origin_of_unpositioned c hnone).trans ho
    rw [hnone] at hp
    exact hp.positioned horigin hn
  | @recorded _ _ n hs =>
    -- What is about to be recorded still has its sentinel, so that nothing was seen of it.
    rw [hs] at hcovered
    obtain ⟨-, o, ho, hsentinel⟩ := hcovered
    obtain ⟨hrecords, -, horigin⟩ :=
      FetchHistory.of_entry_isSentinel ((c.entry p).symm.trans ho) hsentinel
    exact .recorded hrecords horigin hsentinel n
  | emitted hs hr =>
    rw [hs] at hcovered
    obtain ⟨n, hn⟩ := SortedMap.contains_eq_true_iff.mp hcovered.1
    rw [hn, Option.getD_some, Int64.not_lt] at hr
    rw [hn] at hp
    exact hp.emitted hr

theorem performAll (a : t.AllAligned s) (c : t.Consistent s) (client : BrokerClient ω)
    (actions : List (FetchAction ω)) : (t.performAll client actions).AllAligned s := by
  induction actions generalizing t with
  | nil => exact a
  | cons action actions ih => exact ih (a.perform c client action) (c.perform client action)

end FetchTrace.AllAligned

namespace FetchTrace

variable {s : OffsetState} {t : FetchTrace ω} {p : Partition} {n : Position} {last : Int64}

/-- A partition is polled from its position on, and never without one. -/
theorem Consistent.position_of_pollOf? (c : t.Consistent s)
    (h : t.run.loop.pollOf? p = some n) : t.run.loop.positions.get? p = some n := by
  have hcovered := c.covered
  unfold FetchLoop.pollOf? at h
  split at h
  next round hs =>
    rw [hs] at hcovered
    obtain ⟨hp, h⟩ := Option.ite_none_right_eq_some.mp h
    obtain ⟨m, hm⟩ := SortedMap.contains_eq_true_iff.mp ((hcovered p hp).resolve_left List.not_mem_nil)
    rw [hm, Option.getD_some] at h
    rw [hm, h]
  next => cases h

/-- Until a record of the partition is emitted, its position stays. -/
theorem Consistent.position_of_silent (c : t.Consistent s)
    (hn : t.run.loop.positions.get? p = some n) (client : BrokerClient ω)
    (actions : List (FetchAction ω))
    (hsame : (t.performAll client actions).history.recordsFrom p = t.history.recordsFrom p) :
    (t.performAll client actions).run.loop.positions.get? p = some n := by
  induction actions generalizing t with
  | nil => exact hn
  | cons a actions ih =>
    have c' := c.perform client a
    obtain ⟨events, hevents, heffect⟩ := t.perform_effect client a p
    obtain ⟨later, hlater⟩ := (t.perform client a).exists_history_append client actions
    -- If nothing was emitted on the whole way, then nothing by the first action.
    have hsame' : ((t.perform client a).performAll client actions).history.recordsFrom p =
        t.history.recordsFrom p := hsame
    rw [hlater, hevents, FetchHistory.recordsFrom_append, FetchHistory.recordsFrom_append,
      List.append_assoc, List.append_right_eq_self, List.append_eq_nil_iff] at hsame'
    obtain ⟨hnone, hnone'⟩ := hsame'
    have hn' : (t.perform client a).run.loop.positions.get? p = some n := by
      have hcovered := c.covered
      generalize (t.perform client a).run.loop.positions.get? p = position at heffect
      cases heffect with
      | quiet => exact hn
      | positioned hp => cases hn.symm.trans hp
      | recorded hs =>
        rw [hs] at hcovered
        obtain ⟨-, o, ho, hsentinel⟩ := hcovered
        obtain ⟨x, hx, -⟩ := c.position p n hn
        obtain rfl := Option.some.inj (ho.symm.trans hx)
        cases hsentinel
      | emitted => simp [FetchHistory.recordsFrom] at hnone
    refine ih c' hn' ?_
    rw [hlater, FetchHistory.recordsFrom_append, hnone', List.append_nil]

/-- Until a record of the partition is emitted, it is polled from `n` on and from nowhere else. -/
def GoesOnAt (client : BrokerClient ω) (t : FetchTrace ω) (p : Partition) (n : Position) : Prop :=
  ∀ actions, let u := t.performAll client actions
    u.history.recordsFrom p = t.history.recordsFrom p →
      u.run.loop.positions.get? p = some n ∧ ∀ m, u.run.loop.pollOf? p = some m → m = n

theorem Consistent.goesOnAt (c : t.Consistent s) (hn : t.run.loop.positions.get? p = some n)
    (client : BrokerClient ω) : t.GoesOnAt client p n := by
  intro actions u hsame
  have hposition : u.run.loop.positions.get? p = some n :=
    c.position_of_silent hn client actions hsame
  refine ⟨hposition, fun m hm => ?_⟩
  have hpolled := (c.performAll client actions).position_of_pollOf? hm
  exact Option.some.inj (hpolled.symm.trans hposition)

/-- How a run reads a partition that has the offset `last` when it begins: from the position after this
offset on. If there is none, the run ends when it comes to the partition, which is never polled. -/
structure ResumesAfter (client : BrokerClient ω) (t : FetchTrace ω) (p : Partition) (last : Int64) :
    Prop where
  positions : ∀ n, Position.after? last = some n → ∀ actions,
    let u := t.performAll client actions
    u.history.recordsFrom p = [] → ∀ round todo now, u.run.loop.stage = .positioning round (p :: todo) →
      (u.perform client (.step now)).run.loop.positions.get? p = some n
  polls : ∀ actions, let u := t.performAll client actions
    u.history.recordsFrom p = [] → ∀ m, u.run.loop.pollOf? p = some m → Position.after? last = some m
  overflows : Position.after? last = none → ∀ actions, let u := t.performAll client actions
    u.history.recordsFrom p = [] ∧ u.run.loop.pollOf? p = none ∧
      ∀ round todo now, u.run.loop.stage = .positioning round (p :: todo) →
        (u.perform client (.step now)).run.loop.result? =
          some (.error (.poll p last "offset overflow"))

theorem origin_of_get? {o : Offset} (hs : s.get? p = some o) (h : FetchHistory) :
    h.origin s p = some o := by
  rw [FetchHistory.origin, hs, Option.some_or]

theorem Consistent.unresolved (c : t.Consistent s) (hs : s.get? p = some (.concrete last)) :
    t.history.resolutions p = [] := by
  refine Decidable.byContradiction fun hne => ?_
  obtain ⟨o, ho, hsentinel⟩ := c.sentinel p hne
  obtain rfl := Option.some.inj ((origin_of_get? hs t.history).symm.trans ho)
  cases hsentinel

theorem Consistent.offset_of_unread (c : t.Consistent s) (hs : s.get? p = some (.concrete last))
    (hrecords : t.history.recordsFrom p = []) :
    t.run.fetcher.offsets.get? p = some (.concrete last) := by
  rw [c.entry p, FetchHistory.entry, hrecords, c.unresolved hs]
  exact origin_of_get? hs t.history

theorem AllAligned.after?_of_unread (a : t.AllAligned s) (c : t.Consistent s)
    (hs : s.get? p = some (.concrete last)) (hrecords : t.history.recordsFrom p = [])
    (hn : t.run.loop.positions.get? p = some n) : Position.after? last = some n := by
  have hnext := (a p).next n hn
  rw [FetchHistory.next, hrecords, c.unresolved hs, origin_of_get? hs t.history] at hnext
  exact hnext

/-- What the step does that comes to a partition without a position. -/
theorem Consistent.perform_positioning (c : t.Consistent s) (hs : s.get? p = some (.concrete last))
    (hrecords : t.history.recordsFrom p = []) (hp : t.run.loop.positions.get? p = none)
    {round todo : List Partition} (hl : t.run.loop.stage = .positioning round (p :: todo))
    (client : BrokerClient ω) (now : Nat) :
    (t.perform client (.step now)).run.loop =
      match Position.after? last with
      | some n => { t.run.loop with
          stage := .positioning round todo, positions := t.run.loop.positions.insert p n }
      | none => { t.run.loop with stage := .finished (.error (.poll p last "offset overflow")) } := by
  have ho := c.offset_of_unread hs hrecords
  have hunknown := SortedMap.contains_eq_false_iff.mpr hp
  simp only [FetchTrace.perform, FetchRun.perform, FetchLoop.step, hl, FetchLoop.position, hunknown,
    ho, Bool.false_eq_true, if_false, Fetcher.positionAfter]
  cases Position.after? last with
  | some n => rfl
  | none => rfl

/-- A partition that has a position keeps it when the loop comes to it. -/
theorem perform_known (t : FetchTrace ω) (hn : t.run.loop.positions.get? p = some n)
    {round todo : List Partition} (hl : t.run.loop.stage = .positioning round (p :: todo))
    (client : BrokerClient ω) (now : Nat) :
    (t.perform client (.step now)).run.loop.positions.get? p = some n := by
  have hknown := SortedMap.contains_eq_true_iff.mpr ⟨n, hn⟩
  simp only [perform, FetchRun.perform, FetchLoop.step, hl, FetchLoop.position, hknown, if_true]
  exact hn

/-- A run over offsets in which the partition has the offset `last` reads it from the position after. -/
theorem resumesAfter (f : Fetcher) (hf : f.offsets.get? p = some (.concrete last))
    (client : BrokerClient ω) (w : ω) : (begin f w).ResumesAfter client p last := by
  have aligned (actions : List (FetchAction ω)) :
      ((begin f w).performAll client actions).AllAligned f.offsets :=
    (AllAligned.begin f w).performAll (.begin f w) client actions
  have consistent (actions : List (FetchAction ω)) :
      ((begin f w).performAll client actions).Consistent f.offsets :=
    (Consistent.begin f w).performAll client actions
  constructor
  case positions =>
    intro n hn actions u hrecords round todo now hl
    have c : u.Consistent f.offsets := consistent actions
    cases hp : u.run.loop.positions.get? p with
    | none =>
      rw [c.perform_positioning hf hrecords hp hl, hn]
      exact SortedMap.get?_insert_self ..
    | some m =>
      have hm := (aligned actions).after?_of_unread c hf hrecords hp
      rw [u.perform_known hp hl, ← hm, hn]
  case polls =>
    intro actions u hrecords m hm
    have c : u.Consistent f.offsets := consistent actions
    exact (aligned actions).after?_of_unread c hf hrecords (c.position_of_pollOf? hm)
  case overflows =>
    intro hlast actions u
    have a : u.AllAligned f.offsets := aligned actions
    have c : u.Consistent f.offsets := consistent actions
    have hp : u.run.loop.positions.get? p = none := by
      refine Option.eq_none_iff_forall_ne_some.mpr fun m hm => ?_
      obtain ⟨o, ho, hafter⟩ := (a p).started m hm
      obtain rfl := Option.some.inj ((origin_of_get? hf u.history).symm.trans ho)
      exact hafter last rfl hlast
    have hrecords := ((a p).unread hp).1
    refine ⟨hrecords, ?_, fun round todo now hl => ?_⟩
    · refine Option.eq_none_iff_forall_ne_some.mpr fun m hm => ?_
      cases hp.symm.trans (c.position_of_pollOf? hm)
    · rw [c.perform_positioning hf hrecords hp hl, hlast]
      rfl

end FetchTrace

/-- How the last offset of a partition and its position in the loop are related. They fit together, or
the loop is at a limit: the last record has the greatest offset, so that its position stays there, or no
record was emitted since the broker resolved the sentinel to the least position, which has no offset before
it. -/
def FetchHistory.Joins (h : FetchHistory) (p : Partition) (last : Int64) (n : Position) : Prop :=
  Position.after? last = some n ∨
    last = Int64.maxValue ∧ n = Int64.maxValue ∧
      (∃ r, (h.recordsFrom p).getLast? = some r ∧ r.offset = Int64.maxValue) ∨
    last = Int64.minValue ∧ n = Int64.minValue ∧ h.recordsFrom p = [] ∧
      (h.resolutions p).getLast? = some Int64.minValue

theorem FetchHistory.joins_of_next {s : OffsetState} {h : FetchHistory} {p : Partition}
    {last : Int64} {n : Position} (hentry : h.entry s p = some (.concrete last))
    (hnext : h.next s p = some n) : h.Joins p last n := by
  unfold entry at hentry
  unfold next at hnext
  cases hr : (h.recordsFrom p).getLast? with
  | some r =>
    rw [hr] at hentry hnext
    obtain rfl := Offset.concrete.inj (Option.some.inj hentry)
    by_cases hmax : r.offset = Int64.maxValue
    · obtain rfl := Option.some.inj hnext
      exact Or.inr (Or.inl ⟨hmax, (if_pos hmax).trans hmax, r, hr, hmax⟩)
    · exact Or.inl ((Position.after?_eq_afterCapped hmax).trans hnext)
  | none =>
    rw [hr] at hentry hnext
    cases hm : (h.resolutions p).getLast? with
    | some m =>
      rw [hm] at hentry hnext
      obtain rfl := Offset.concrete.inj (Option.some.inj hentry)
      obtain rfl := Option.some.inj hnext
      by_cases hmin : m = Int64.minValue
      · obtain rfl := hmin
        exact Or.inr (Or.inr ⟨rfl, rfl, List.getLast?_eq_none_iff.mp hr, hm⟩)
      · exact Or.inl (Position.after?_beforeCapped hmin)
    | none =>
      rw [hm] at hentry hnext
      have horigin : h.origin s p = some (.concrete last) := hentry
      simp only [horigin] at hnext
      exact Or.inl hnext

namespace FetchTrace

/-- Whatever a client answers, and at whatever point of a run the offsets are copied: a partition that has
a position has an offset, and the loop goes on at this position, while a run of a fetcher over the copied
offsets reads the partition from the position after the offset. Both are the same, unless the last record
of the partition has the greatest offset or the broker resolved its sentinel to the least position. No
record is emitted twice, unless it has the greatest offset. -/
theorem goes_on_as_restarted (client : BrokerClient ω) (f : Fetcher) (w : ω)
    (actions : List (FetchAction ω)) (p : Partition) :
    let t := (begin f w).performAll client actions
    (∀ n, t.run.loop.positions.get? p = some n → t.GoesOnAt client p n ∧
      ∃ last, t.run.fetcher.offsets.get? p = some (.concrete last) ∧ t.history.Joins p last n ∧
        ∀ (υ : Type) (other : BrokerClient υ) (settings : FetchSettings) (v : υ),
          (begin { settings := settings, offsets := t.run.fetcher.offsets } v).ResumesAfter other p
            last) ∧
    ((t.history.recordsFrom p).map (·.offset)).Pairwise fun a b =>
      a < b ∨ a = Int64.maxValue ∧ b = Int64.maxValue := by
  intro t
  have c : t.Consistent f.offsets := (Consistent.begin f w).performAll client actions
  have a : t.AllAligned f.offsets :=
    (AllAligned.begin f w).performAll (.begin f w) client actions
  constructor
  · intro n hn
    obtain ⟨last, hlast, -⟩ := c.position p n hn
    have hentry := (c.entry p).symm.trans hlast
    exact ⟨c.goesOnAt hn client, last, hlast, FetchHistory.joins_of_next hentry ((a p).next n hn),
      fun υ other settings v =>
        resumesAfter { settings := settings, offsets := t.run.fetcher.offsets } hlast other v⟩
  · exact List.pairwise_map.mpr (a p).increasing

/-- A record right below the greatest offset: the loop and a restart go on at the greatest position. -/
theorem goes_on_as_restarted_below_greatest :
    let p : Partition := ⟨"t", 0⟩
    let client : BrokerClient Unit :=
      { listTopics := fun _ => (.ok [], ())
        listPartitions := fun _ _ => (.ok [p], ())
        resolve := fun _ _ _ => (.ok 0, ())
        poll := fun _ _ _ _ => ({ records := .ok [⟨p, Int64.maxValue - 1, []⟩] }, ())
        commit := fun _ _ => (.ok (), ())
        close := fun _ => (.ok (), ()) }
    let f : Fetcher := { offsets := SortedMap.empty.insert p (.concrete (Int64.maxValue - 2)) }
    let t := (begin f ()).performAll client (List.replicate 6 (.step 0))
    t.run.loop.positions.get? p = some Int64.maxValue ∧ t.GoesOnAt client p Int64.maxValue ∧
      t.run.fetcher.offsets.get? p = some (.concrete (Int64.maxValue - 1)) ∧
      Position.after? (Int64.maxValue - 1) = some Int64.maxValue := by
  intro p client f t
  have hn : t.run.loop.positions.get? p = some Int64.maxValue := by
    decide +kernel
  have hoffset : t.run.fetcher.offsets.get? p = some (.concrete (Int64.maxValue - 1)) := by
    decide +kernel
  clear_value client f
  obtain ⟨hgoes, last, hlast, hjoins, -⟩ :=
    (goes_on_as_restarted client f () (List.replicate 6 (.step 0)) p).1 _ hn
  obtain rfl := Offset.concrete.inj (Option.some.inj (hoffset.symm.trans hlast))
  refine ⟨hn, hgoes, hoffset, hjoins.resolve_right ?_⟩
  rintro (⟨hmax, -⟩ | ⟨hmin, -⟩)
  · exact absurd hmax (by decide)
  · exact absurd hmin (by decide)

/-- After the record with the greatest offset a restart has nowhere to go on, but the loop polls this
offset again and emits the record a second time. -/
theorem emits_greatest_again :
    let p : Partition := ⟨"t", 0⟩
    let client : BrokerClient Unit :=
      { listTopics := fun _ => (.ok [], ())
        listPartitions := fun _ _ => (.ok [p], ())
        resolve := fun _ _ _ => (.ok 0, ())
        poll := fun _ _ _ _ => ({ records := .ok [⟨p, Int64.maxValue, []⟩] }, ())
        commit := fun _ _ => (.ok (), ())
        close := fun _ => (.ok (), ()) }
    let f : Fetcher := { offsets := SortedMap.empty.insert p (.concrete (Int64.maxValue - 1)) }
    let t := (begin f ()).performAll client (List.replicate 6 (.step 0))
    let u := t.performAll client (List.replicate 8 (.step 0))
    (t.history.recordsFrom p).map (·.offset) = [Int64.maxValue] ∧
      t.run.fetcher.offsets.get? p = some (.concrete Int64.maxValue) ∧
      Position.after? Int64.maxValue = none ∧
      (u.history.recordsFrom p).map (·.offset) = [Int64.maxValue, Int64.maxValue] ∧
      u.run.loop.pollOf? p = some Int64.maxValue := by
  decide +kernel

/-- At the other limit the loop polls the least position, to which the sentinel was resolved, and a restart
the one after it. -/
example :
    let p : Partition := ⟨"t", 0⟩
    let client : BrokerClient Unit :=
      { listTopics := fun _ => (.ok [], ())
        listPartitions := fun _ _ => (.ok [p], ())
        resolve := fun _ _ _ => (.ok Int64.minValue, ())
        poll := fun _ _ _ _ => ({ records := .error (.transient "blip") }, ())
        commit := fun _ _ => (.ok (), ())
        close := fun _ => (.ok (), ()) }
    let f : Fetcher := { offsets := SortedMap.empty.insert p .earliest }
    let t := (begin f ()).performAll client (List.replicate 7 (.step 0))
    t.run.loop.pollOf? p = some Int64.minValue ∧
      t.run.fetcher.offsets.get? p = some (.concrete Int64.minValue) ∧
      Position.after? Int64.minValue = some (Int64.minValue + 1) := by
  decide +kernel

end FetchTrace

end CheckpointedLog
