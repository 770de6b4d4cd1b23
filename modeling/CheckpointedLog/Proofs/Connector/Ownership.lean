import CheckpointedLog.Proofs.Assignment
import CheckpointedLog.Proofs.Connector.Step
import CheckpointedLog.Proofs.Fetch.Step

namespace CheckpointedLog

variable {δ ω : Type}

namespace OffsetState

theorem contains_advance (s : OffsetState) (p q : Partition) (last : Int64) :
    (s.advance p last).2.contains q = s.contains q := by
  unfold advance
  split
  · rfl
  next o ho =>
  split
  · rw [SortedMap.contains_insert]
    by_cases hq : q = p
    · rw [hq, SortedMap.contains_eq_true_iff.mpr ⟨o, ho⟩, Bool.or_true]
    · rw [decide_eq_false hq, Bool.false_or]
  · rfl

theorem contains_addPartitions_iff {s : OffsetState} {o : Offset} {ps : List Partition}
    {p : Partition} : (s.addPartitions o ps).2.contains p = true ↔ s.contains p = true ∨ p ∈ ps := by
  rw [SortedMap.contains_eq_true_iff, SortedMap.contains_eq_true_iff, get?_addPartitions]
  cases s.get? p with
  | some a => simp
  | none => simp

end OffsetState

namespace FetchLoop

theorem contains_recordPosition (s : OffsetState) (p q : Partition) (n : Position) :
    (recordPosition s p n).contains q = s.contains q := by
  unfold recordPosition
  split
  · exact OffsetState.contains_advance s p q _
  · rfl

theorem Step.contains {client : BrokerClient ω} {now : Nat} {l l' : FetchLoop} {f f' : Fetcher}
    {w w' : ω} {r : Option Record} (h : Step client now l f w l' f' w' r) (p : Partition) :
    f'.offsets.contains p = f.offsets.contains p := by
  cases h with
  | recorded => exact contains_recordPosition f.offsets _ p _
  | emitted => exact OffsetState.contains_advance f.offsets _ p _
  | begun | known | untracked | positioned | overflowed | unresolved | resolved | polled | settled
  | delivered | skipped | dropped | ended => rfl

end FetchLoop

namespace Session

/-- What a subtask tracks, and what it is about to track, is its own. -/
structure Owning (s : Session δ ω) : Prop where
  tracked : ∀ p, s.connector.currentState.contains p = true → s.connector.subtask.owns p = true
  found : ∀ ps failures, s.discovery = some ⟨.adding ps, failures⟩ →
    ∀ p ∈ ps, s.connector.subtask.owns p = true

namespace Owning

variable {parts : Components δ ω} {G : ω → ω → Prop} {s s' : Session δ ω} {a : SessionAction}

theorem currentState_cancel (c : Connector δ) :
    (c.fetcher.map Fetcher.cancel).elim .empty (·.offsets) = c.currentState := by
  rw [Connector.currentState]
  cases c.fetcher with
  | none => rfl
  | some f => rfl

/-- Nothing that was not tracked is tracked, and what discovery found stays or is dropped. -/
theorem of_same (h : s.Owning) (hsubtask : s'.connector.subtask = s.connector.subtask)
    (htracked : ∀ p, s'.connector.currentState.contains p = true →
      s.connector.currentState.contains p = true)
    (hdiscovery : s'.discovery = s.discovery ∨ s'.discovery = none) : s'.Owning where
  tracked p hp := hsubtask ▸ h.tracked p (htracked p hp)
  found found failures hfound := by
    rw [hsubtask]
    rcases hdiscovery with hd | hd
    · exact h.found found failures (hd.symm.trans hfound)
    · cases hd.symm.trans hfound

theorem opened [Libraries] (h : s.Owning) (found : List Partition) (d : δ) (w : ω) :
    Owning { s with connector := s.connector.Opened found d, world := w } where
  tracked p hp := by
    rcases (Connector.contains_merge_iff s.connector _ p).mp hp with hp | ⟨restored, -, hown, -⟩
    · exact (Subtask.mem_assign.mp hp).2
    · exact hown
  found := h.found

/-- What discovery found is owned, so that it may be tracked. -/
theorem tracked_found (h : s.Owning) {found : List Partition} {failures : UInt32}
    (hfound : s.discovery = some ⟨.adding found, failures⟩) {p : Partition}
    (hp : (ConnectorRun.track found s.connector).currentState.contains p = true) :
    s.connector.subtask.owns p = true := by
  cases hf : s.connector.fetcher with
  | none =>
    simp only [Connector.currentState, ConnectorRun.track, hf] at hp
    cases hp
  | some f =>
    simp only [Connector.currentState, ConnectorRun.track, hf] at hp
    rcases OffsetState.contains_addPartitions_iff.mp hp with hp | hp
    · apply h.tracked p
      rwa [Connector.currentState_of_fetcher hf]
    · exact h.found found failures hfound p hp

theorem of_step [Libraries] (h : s.Owning) (hstep : s.Step parts G a s') : s'.Owning := by
  cases hstep with
  | idle => exact h
  | opened => exact h.opened _ _ _
  | fetched _ hf =>
    refine h.of_same rfl (fun p hp => ?_) (Or.inl rfl)
    rw [Connector.currentState_of_fetcher hf]
    exact ((FetchLoop.step_cases _ _ s.fetch _ s.world).contains p).symm.trans hp
  | begun _ hdiscovery =>
    exact ⟨h.tracked, fun found failures hd => absurd hd (hdiscovery found failures)⟩
  | tracked _ hfound hnext =>
    refine ⟨fun p hp => h.tracked_found hfound hp, fun found failures hd => ?_⟩
    exact absurd (Option.some.inj hd) (hnext found failures)
  | searched _ _ _ hfetcher howned =>
    refine ⟨fun p hp => h.tracked p ?_, howned⟩
    rcases hfetcher with ⟨rfl, -⟩ | ⟨rfl, -⟩
    · exact hp
    · exact currentState_cancel s.connector ▸ hp
  | discoveryEnded => exact h.of_same rfl (fun _ hp => hp) (Or.inr rfl)
  | restored | openFailed | finished | snapshotBegun | copied | snapshotEnded | completionBegun
  | completed =>
    exact h.of_same rfl (fun _ hp => hp) (Or.inl rfl)
  | failed | cancelled | closed =>
    exact h.of_same rfl (fun p hp => currentState_cancel s.connector ▸ hp) (Or.inl rfl)

theorem performAll [Libraries] (h : s.Owning) (parts : Components δ ω) (actions : List SessionAction) :
    (s.performAll parts actions).Owning := by
  induction actions generalizing s with
  | nil => exact h
  | cons a actions ih => exact ih (h.of_step (perform_step parts.movesAnywhere s a))

end Owning

theorem owning_start {c : Connector δ} (hc : c.fetcher = none) (w : ω) : (start c w).Owning where
  tracked p hp := by
    simp only [start, Connector.currentState, hc] at hp
    cases hp
  found := nofun

end Session

end CheckpointedLog
