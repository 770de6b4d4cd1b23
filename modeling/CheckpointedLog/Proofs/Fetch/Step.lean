import CheckpointedLog.Fetch.FetchHistory
import CheckpointedLog.Proofs.OffsetState

/-!
Everything that one step of the fetch loop can do, case by case. Invariants of fetching are proved
over these cases and do not open the step function again.
-/
namespace CheckpointedLog

variable {ω : Type}

/-- The stages between rounds and after the last one. -/
def FetchStage.Resting : FetchStage → Prop
  | .idle | .pausing _ | .finished _ => True
  | _ => False

namespace FetchLoop

/-- The cases of a step from the loop `l`, the shared state `f` and the world `w`: the loop, the shared
state and the world after it, and the record that it emits. -/
inductive Step (client : BrokerClient ω) (now : Nat) (l : FetchLoop) (f : Fetcher) (w : ω) :
    FetchLoop → Fetcher → ω → Option Record → Prop where
  | begun (h : l.stage = .idle ∨ ∃ wake, l.stage = .pausing wake) :
    Step client now l f w (l.beginRound f now) f w none
  | known {round p todo} (h : l.stage = .positioning round (p :: todo))
      (hp : l.positions.contains p = true) :
    Step client now l f w { l with stage := .positioning round todo } f w none
  | untracked {round p todo} (h : l.stage = .positioning round (p :: todo))
      (hp : l.positions.contains p = false) (ho : f.offsets.get? p = none) :
    Step client now l f w
      (l.failRound f now (.poll p (-1) "partition is not tracked in offset state")) f w none
  | positioned {round p todo last position} (h : l.stage = .positioning round (p :: todo))
      (hp : l.positions.contains p = false) (ho : f.offsets.get? p = some (.concrete last))
      (hn : Position.after? last = some position) :
    Step client now l f w
      { l with stage := .positioning round todo, positions := l.positions.insert p position } f w none
  | overflowed {round p todo last} (h : l.stage = .positioning round (p :: todo))
      (hp : l.positions.contains p = false) (ho : f.offsets.get? p = some (.concrete last))
      (hn : Position.after? last = none) :
    Step client now l f w (l.failRound f now (.poll p last "offset overflow")) f w none
  | unresolved {round p todo sentinel e w'} (h : l.stage = .positioning round (p :: todo))
      (hp : l.positions.contains p = false) (ho : f.offsets.get? p = some sentinel)
      (hs : sentinel.isSentinel = true) (hr : client.resolve p sentinel w = (.error e, w')) :
    Step client now l f w (l.failRound f now (Fetcher.failureAt p sentinel.toRaw e)) f w' none
  | resolved {round p todo sentinel position w'} (h : l.stage = .positioning round (p :: todo))
      (hp : l.positions.contains p = false) (ho : f.offsets.get? p = some sentinel)
      (hs : sentinel.isSentinel = true) (hr : client.resolve p sentinel w = (.ok position, w')) :
    Step client now l f w { l with stage := .recording round todo p position } f w' none
  | polled {round outcomes waitMs w'} (h : l.stage = .positioning round [])
      (hp : pollAll client f.settings.pollTimeoutMs l.positions round w = (outcomes, waitMs, w')) :
    Step client now l f w { l with stage := .awaiting outcomes (now + waitMs) } f w' none
  | recorded {round todo p position} (h : l.stage = .recording round todo p position) :
    Step client now l f w
      { l with stage := .positioning round todo, positions := l.positions.insert p position }
      { f with offsets := recordPosition f.offsets p position } w none
  | settled {outcomes wake} (h : l.stage = .awaiting outcomes wake) :
    Step client now l f w (l.settle f now none outcomes) f w none
  | delivered {p rest failure} (h : l.stage = .delivering p [] rest failure) :
    Step client now l f w (l.settleRest f now failure rest) f w none
  | skipped {p r records rest failure} (h : l.stage = .delivering p (r :: records) rest failure)
      (hr : r.offset < (l.positions.get? p).getD 0) :
    Step client now l f w { l with stage := .delivering p records rest failure } f w none
  | dropped {p r records rest failure} (h : l.stage = .delivering p (r :: records) rest failure)
      (hc : f.isCancelled = true) :
    Step client now l f w l.endRound f w none
  | emitted {p r records rest failure} (h : l.stage = .delivering p (r :: records) rest failure)
      (hr : ¬ r.offset < (l.positions.get? p).getD 0) (hc : f.isCancelled = false) :
    Step client now l f w
      { l with
        stage := .delivering p records rest failure
        positions := l.positions.insert p (Position.afterCapped r.offset) }
      { f with offsets := (f.offsets.advance p r.offset).2 } w (some r)
  | ended {result} (h : l.stage = .finished result) : Step client now l f w l f w none

theorem step_position (client : BrokerClient ω) (now : Nat) (l : FetchLoop) (f : Fetcher) (w : ω)
    {round todo : List Partition} {p : Partition} (h : l.stage = .positioning round (p :: todo)) :
    Step client now l f w (l.position client f now round todo p w).1 f
      (l.position client f now round todo p w).2 none := by
  -- A known position comes first, then the offset, and the broker is asked last.
  by_cases hp : l.positions.contains p = true
  · simp only [position, hp, if_true]
    exact .known h hp
  have hp' : l.positions.contains p = false := Bool.eq_false_iff.mpr hp
  simp only [position, if_neg hp]
  split
  · next ho => exact .untracked h hp' ho
  · next last ho =>
    unfold Fetcher.positionAfter
    cases hn : Position.after? last with
    | none => exact .overflowed h hp' ho hn
    | some position => exact .positioned h hp' ho hn
  · next sentinel hne ho =>
    have hs : sentinel.isSentinel = true := by
      cases sentinel with
      | concrete last => exact absurd rfl (hne last)
      | _ => rfl
    split
    · next e w' hr => exact .unresolved h hp' ho hs hr
    · next position w' hr => exact .resolved h hp' ho hs hr

theorem step_cases (client : BrokerClient ω) (now : Nat) (l : FetchLoop) (f : Fetcher) (w : ω) :
    Step client now l f w (l.step client now f w).1 (l.step client now f w).2.1
      (l.step client now f w).2.2.1 (l.step client now f w).2.2.2 := by
  unfold step
  split
  next h => exact .begun (Or.inl h)
  next wake h => exact .begun (Or.inr ⟨wake, h⟩)
  next round p todo h => exact step_position client now l f w h
  next round h => exact .polled h rfl
  next round todo p position h => exact .recorded h
  next outcomes wake h => exact .settled h
  next p rest failure h => exact .delivered h
  next p r records rest failure h =>
    by_cases hr : r.offset < (l.positions.get? p).getD 0
    · rw [if_pos hr]
      exact .skipped h hr
    · rw [if_neg hr]
      by_cases hc : f.isCancelled = true
      · rw [if_pos hc]
        exact .dropped h hc
      · rw [if_neg hc]
        exact .emitted h hr (Bool.eq_false_iff.mpr hc)
  next result h => exact .ended h

/-- A step is remembered for a position that it records or a record that it emits. -/
theorem event?_cases {l : FetchLoop} {r : Option Record} {e : FetchEvent}
    (h : l.event? r = some e) :
    (∃ p n, e = .resolved p n) ∨ ∃ p x, e = .emitted p x := by
  unfold event? at h
  split at h
  · exact Or.inl ⟨_, _, (Option.some.inj h).symm⟩
  · exact Or.inr ⟨_, _, (Option.some.inj h).symm⟩
  · cases h

theorem event?_none {l : FetchLoop} {e : FetchEvent} (h : l.event? none = some e) :
    ∃ p n, e = .resolved p n := by
  unfold event? at h
  split at h
  next => exact ⟨_, _, (Option.some.inj h).symm⟩
  next hr => cases hr
  next => cases h

/-- The history remembers the records that are emitted, and no others. -/
theorem Step.records_event? {client : BrokerClient ω} {now : Nat} {l l' : FetchLoop} {f f' : Fetcher}
    {w w' : ω} {r : Option Record} (h : Step client now l f w l' f' w' r) :
    FetchHistory.records (l.event? r).toList = r.toList := by
  cases h with
  | begun h => rcases h with h | ⟨wake, h⟩ <;> simp [event?, h, FetchHistory.records]
  | known h | untracked h | positioned h | overflowed h | unresolved h | resolved h | polled h
  | recorded h | settled h | delivered h | skipped h | dropped h | emitted h | ended h =>
    simp [event?, h, FetchHistory.records]

/-- Every outcome of a round is what the client answered to a poll of its partition. -/
theorem exists_poll_of_mem_pollAll {client : BrokerClient ω} {timeoutMs : Nat} {positions : OffsetMap}
    {round : List Partition} {w : ω} {o : Polled}
    (h : o ∈ (pollAll client timeoutMs positions round w).1) :
    ∃ v, o.records = (client.poll o.partition o.position timeoutMs v).1.records := by
  induction round generalizing w with
  | nil => cases h
  | cons p round ih =>
    rcases List.mem_cons.mp h with rfl | h
    · exact ⟨w, rfl⟩
    · exact ih h

section Moves

variable {client : BrokerClient ω} {G : ω → ω → Prop} (refl : ∀ w, G w w)
  (trans : ∀ {u v w}, G u v → G v w → G u w)
  (hpoll : ∀ p position timeoutMs w, G w (client.poll p position timeoutMs w).2)
include refl trans hpoll

theorem pollAll_moves (timeoutMs : Nat) (positions : OffsetMap) (round : List Partition) (w : ω) :
    G w (pollAll client timeoutMs positions round w).2.2 := by
  induction round generalizing w with
  | nil => exact refl w
  | cons p round ih => exact trans (hpoll p _ timeoutMs w) (ih _)

/-- A step polls or asks for a position, or leaves the world alone. -/
theorem Step.moves (hresolve : ∀ p o w, G w (client.resolve p o w).2) {now : Nat} {l l' : FetchLoop}
    {f f' : Fetcher} {w w' : ω} {r : Option Record} (h : Step client now l f w l' f' w' r) :
    G w w' := by
  cases h with
  | @unresolved _ p _ o _ _ _ _ _ _ hr | @resolved _ p _ o _ _ _ _ _ _ hr =>
    have hmove := hresolve p o w
    rwa [hr] at hmove
  | @polled round _ _ _ _ hp =>
    have hmove := pollAll_moves refl trans hpoll f.settings.pollTimeoutMs l.positions round w
    rwa [hp] at hmove
  | _ => exact refl w

end Moves

theorem get?_recordPosition_self {s : OffsetState} {p : Partition} {o : Offset}
    (ho : s.get? p = some o) (hs : o.isSentinel = true) (n : Position) :
    (recordPosition s p n).get? p = some (.concrete (Position.beforeCapped n)) := by
  rw [recordPosition, ho, Option.any_some, if_pos hs]
  exact OffsetState.get?_advance_self ho (Offset.admits_of_isSentinel hs _)

theorem get?_recordPosition_of_ne (s : OffsetState) {p q : Partition} (n : Position) (hq : q ≠ p) :
    (recordPosition s p n).get? q = s.get? q := by
  unfold recordPosition
  split
  · exact OffsetState.get?_advance_of_ne s _ hq
  · rfl

theorem failRound_resting (f : Fetcher) (now : Nat) (e : SourceError) (l : FetchLoop) :
    (l.failRound f now e).stage.Resting := by
  unfold failRound
  cases e.isRetryable <;> trivial

/-- Taking outcomes either ends the round or comes to the records of one of them. -/
theorem settle_stage (f : Fetcher) (now : Nat) (failure : Option SourceError) (l : FetchLoop)
    (outcomes : List Polled) :
    (l.settle f now failure outcomes).stage.Resting ∨
      ∃ o records rest failure', o ∈ outcomes ∧ rest ⊆ outcomes ∧ o.records = .ok records ∧
        (l.settle f now failure outcomes).stage =
          .delivering o.partition records rest failure' := by
  induction outcomes generalizing failure with
  | nil =>
    left
    cases failure with
    | none => trivial
    | some e => exact failRound_resting f now e l
  | cons o rest ih =>
    unfold settle
    split
    next records ho =>
      exact Or.inr ⟨o, records, rest, failure, List.mem_cons_self .., List.subset_cons_self ..,
        ho, rfl⟩
    next e ho =>
      by_cases hc : f.isCancelled = true
      · simp only [hc, if_true]
        exact Or.inl trivial
      · simp only [if_neg hc]
        apply (ih _).imp_right
        rintro ⟨o', records, rest', failure', hmem, hsub, hok, hstage⟩
        exact ⟨o', records, rest', failure', List.mem_cons_of_mem _ hmem,
          fun x hx => List.mem_cons_of_mem _ (hsub hx), hok, hstage⟩

theorem settleRest_stage (f : Fetcher) (now : Nat) (failure : Option SourceError) (l : FetchLoop)
    (rest : List Polled) :
    (l.settleRest f now failure rest).stage.Resting ∨
      ∃ o records rest' failure', o ∈ rest ∧ rest' ⊆ rest ∧ o.records = .ok records ∧
        (l.settleRest f now failure rest).stage =
          .delivering o.partition records rest' failure' := by
  unfold settleRest
  split
  · exact Or.inl trivial
  · exact settle_stage f now failure l rest

theorem beginRound_stage (f : Fetcher) (now : Nat) (l : FetchLoop) :
    (l.beginRound f now).stage.Resting ∨
      (l.beginRound f now).stage = .positioning f.offsets.keys f.offsets.keys := by
  unfold beginRound
  split
  · exact Or.inl trivial
  · cases f.offsets.keys with
    | nil => exact Or.inl trivial
    | cons p round => exact Or.inr rfl

@[simp]
theorem failRound_positions (f : Fetcher) (now : Nat) (e : SourceError) (l : FetchLoop) :
    (l.failRound f now e).positions = l.positions := by
  unfold failRound
  split <;> rfl

@[simp]
theorem beginRound_positions (f : Fetcher) (now : Nat) (l : FetchLoop) :
    (l.beginRound f now).positions = l.positions := by
  unfold beginRound
  split
  · rfl
  · split <;> rfl

@[simp]
theorem settle_positions (f : Fetcher) (now : Nat) (failure : Option SourceError) (l : FetchLoop)
    (outcomes : List Polled) : (l.settle f now failure outcomes).positions = l.positions := by
  induction outcomes generalizing failure with
  | nil =>
    cases failure with
    | none => rfl
    | some e => exact failRound_positions f now e l
  | cons o rest ih =>
    unfold settle
    split
    · rfl
    · split
      · rfl
      · exact ih _

@[simp]
theorem settleRest_positions (f : Fetcher) (now : Nat) (failure : Option SourceError)
    (l : FetchLoop) (rest : List Polled) :
    (l.settleRest f now failure rest).positions = l.positions := by
  unfold settleRest
  split
  · rfl
  · exact settle_positions f now failure l rest

end FetchLoop

end CheckpointedLog
