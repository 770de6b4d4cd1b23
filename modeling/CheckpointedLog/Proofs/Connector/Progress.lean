import CheckpointedLog.Broker.Memory
import CheckpointedLog.Pattern.Reader
import CheckpointedLog.Proofs.Connector.Ownership
import CheckpointedLog.Proofs.Connector.Session
import CheckpointedLog.Proofs.Fetch.Progress

namespace CheckpointedLog

variable {δ ω : Type}

theorem FetchLaw.unrestricted (parts : Components δ ω) :
    FetchLaw parts (fun _ => True) (fun _ _ => True) fun _ _ => True where
  moves := parts.movesAnywhere
  fresh _ _ := trivial
  begin _ _ _ := trivial
  step _ _ := trivial
  copy _ := trivial
  add _ _ := trivial
  cancel _ := trivial
  move _ _ := trivial
  commit _ _ _ := trivial

variable [Libraries]

namespace Session

variable {parts : Components δ ω} {J : ω → Prop} {I : OffsetState → FetchTrace ω → Prop}
  {G : ω → ω → Prop} {s s' : Session δ ω} {a : SessionAction}

theorem Sound.fetcher_of_created (h : s.Sound J I) (hphase : s.connector.phase = .created) :
    s.connector.fetcher = none := by
  rcases h.stage with u | ⟨f, o⟩
  · exact u.fetcher
  · exact absurd hphase o.phase

theorem Step.precedes (hstep : s.Step parts G a s')
    (hcreated : s.connector.phase = .created → s.connector.fetcher = none) :
    OffsetState.Precedes s.connector.currentState s'.connector.currentState := by
  cases hstep with
  | @opened found d w hphase =>
    -- There are no offsets yet, and an opening happens only once.
    intro p a ha
    rw [Connector.currentState, hcreated hphase] at ha
    cases ha
  | @fetched now f hrun hf =>
    have hmove := (FetchLoop.step_cases parts.client now s.fetch f s.world).precedes
    rw [Connector.currentState_of_fetcher hf]
    exact hmove
  | @tracked now discovery found failures =>
    cases hf : s.connector.fetcher with
    | none =>
      simp only [Connector.currentState, ConnectorRun.track, hf]
      exact .refl _
    | some f =>
      simp only [Connector.currentState, ConnectorRun.track, hf]
      exact f.offsets.precedes_addPartitions .earliest found
  | @searched now discovery failure discoverer fetcher w hrun hlive hmove hfetcher =>
    rcases hfetcher with ⟨rfl, -⟩ | ⟨rfl, -⟩
    · exact .refl s.connector.currentState
    · have hsame := Owning.currentState_cancel s.connector
      exact hsame.symm ▸ .refl s.connector.currentState
  | failed | cancelled | closed =>
    have hsame := Owning.currentState_cancel s.connector
    exact hsame.symm ▸ .refl s.connector.currentState
  | idle | restored | openFailed | begun | discoveryEnded | finished | snapshotBegun | copied
  | snapshotEnded | completionBegun | completed => exact .refl s.connector.currentState

theorem Sound.precedes_performAll (law : FetchLaw parts J I G) (h : s.Sound J I)
    (actions : List SessionAction) :
    OffsetState.Precedes s.connector.currentState (s.performAll parts actions).connector.currentState := by
  induction actions generalizing s with
  | nil => exact .refl s.connector.currentState
  | cons a actions ih =>
    have hstep := perform_step parts.movesAnywhere s a
    have hfirst := hstep.precedes h.fetcher_of_created
    have hrest := ih (h.perform law a)
    exact hfirst.trans hrest

/-- At any two moments in the life of a connector, with any client, any restored state and any actions
before and between: each partition that was tracked is still tracked; a concrete offset did not
decrease; a sentinel is the same sentinel or gave way to a concrete offset; and every tracked partition
belongs to the subtask. -/
theorem offsets_only_advance (parts : Components δ ω) {config : SourceConfig} {index count : UInt64}
    {c : Connector δ} (hc : Connector.create config index count = .ok c) (w : ω)
    (earlier later : List SessionAction) :
    let s := (start c w).performAll parts earlier
    let s' := s.performAll parts later
    OffsetState.Precedes s.connector.currentState s'.connector.currentState ∧
      ∀ p, s'.connector.currentState.contains p = true → c.subtask.owns p = true := by
  intro s s'
  have law := FetchLaw.unrestricted parts
  have hstart : (start c w).Sound (fun _ => True) fun _ _ => True := .of_create hc trivial
  have hsound : s.Sound (fun _ => True) fun _ _ => True := hstart.performAll law earlier
  have hfetcher : c.fetcher = none := by
    obtain ⟨-, t, -, rfl⟩ := Connector.create_ok hc
    rfl
  have howning : s'.Owning :=
    ((owning_start hfetcher w).performAll parts earlier).performAll parts later
  have hsubtask : s'.connector.subtask = c.subtask := by
    have hearlier : s.connector.subtask = c.subtask := performAll_subtask parts _ earlier
    exact (performAll_subtask parts s later).trans hearlier
  refine ⟨hsound.precedes_performAll law later, ?_⟩
  intro p hp
  have howns := howning.tracked p hp
  rwa [hsubtask] at howns

end Session

end CheckpointedLog

namespace CheckpointedLog.Session

open scoped Pattern

/-- The partition waits for its place after the opening; then one of its two records is emitted. -/
theorem offsets_only_advance_from_sentinel :
    let parts : Components BrokerDiscoverer MemoryBroker :=
      ⟨MemoryBroker.client, BrokerDiscoverer.discoverer MemoryBroker.client⟩
    let c : Connector BrokerDiscoverer :=
      { config := { topics := .list ["t"], startup := .earliest }, subtask := .single }
    let b := ((MemoryBroker.ofMaxBatch 5).createTopic "t" 1).append ⟨"t", 0⟩ [[1], [2]]
    let s := (start c b).performAll parts [.open, .run]
    let s' := s.performAll parts [.fetch 0, .fetch 0, .fetch 0, .fetch 0, .fetch 0, .fetch 0, .cancel]
    s.connector.currentState.entries = [(⟨"t", 0⟩, .earliest)] ∧
      s'.connector.currentState.entries = [(⟨"t", 0⟩, .concrete 0)] ∧
      OffsetState.Precedes s.connector.currentState s'.connector.currentState ∧
      ∀ p, s'.connector.currentState.contains p = true → c.subtask.owns p = true := by
  intro parts c b s s'
  have hbefore : s.connector.currentState.entries = [(⟨"t", 0⟩, .earliest)] := by
    simp only [parts, c, b, s]
    rfl
  have hafter : s'.connector.currentState.entries = [(⟨"t", 0⟩, .concrete 0)] := by
    simp only [parts, c, b, s, s']
    rfl
  have hcreated : Connector.create c.config 0 1 = .ok c := by
    simp only [c]
    rfl
  clear_value parts c b
  exact ⟨hbefore, hafter, offsets_only_advance parts hcreated b _ _⟩

end CheckpointedLog.Session
