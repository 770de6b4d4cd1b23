import CheckpointedLog.Proofs.Connector.Operations
import CheckpointedLog.Proofs.Snapshot.RoundTrip

/-!
What one critical section may do to a session. This is the only place where all operations are taken
apart: what sessions keep is shown by cases on `Session.Step`.
-/
namespace CheckpointedLog.Session

variable [Libraries] {δ ω : Type}

/-- What an action does to a session, if the relation `G` covers what discovery and closing do to the
world. -/
inductive Step (parts : Components δ ω) (G : ω → ω → Prop) (s : Session δ ω) :
    SessionAction → Session δ ω → Prop where
  /-- The action is not possible, or it is refused. -/
  | idle {a : SessionAction}
      (h : ∀ place id copied, a = .endSnapshot place →
        s.snapshots[place]? ≠ some (id, some copied)) :
      Step parts G s a s
  | restored {a : SessionAction} {restored : OffsetState} (ha : a.isRestore = true)
      (hphase : s.connector.phase = .created) (hrestored : restored.Storable) :
      Step parts G s a { s with connector := { s.connector with restored := some restored } }
  | opened {found : List Partition} {d : δ} {w : ω} (hphase : s.connector.phase = .created)
      (hmove : G s.world w) (hopen : (s.connector.open parts s.world).result = .ok ())
      (hopened : (s.connector.open parts s.world).connector = s.connector.Opened found d) :
      Step parts G s .open { s with connector := s.connector.Opened found d, world := w }
  | openFailed {w : ω} (hmove : G s.world w) : Step parts G s .open { s with world := w }
  | begun {discovery : Option DiscoveryLoop} (hphase : s.connector.phase = .opened)
      (hdiscovery : ∀ found failures, discovery ≠ some ⟨.adding found, failures⟩) :
      Step parts G s .run { s with
        fetch := {}, discovery := discovery, failure := none
        connector := { s.connector with phase := .running }, isRunning := true }
  | fetched {now : Nat} {f : Fetcher} (hrun : s.isRunning = true)
      (hf : s.connector.fetcher = some f) :
      Step parts G s (.fetch now) (s.stepFetch parts.client now f)
  /-- What discovery found is tracked. -/
  | tracked {now : Nat} {discovery : DiscoveryLoop} {found : List Partition} {failures : UInt32}
      (hrun : s.isRunning = true) (hfound : s.discovery = some ⟨.adding found, failures⟩)
      (hnext : ∀ found failures, discovery ≠ ⟨.adding found, failures⟩) :
      Step parts G s (.discover now) { s with
        discovery := some discovery, connector := ConnectorRun.track found s.connector
        history := s.history ++ [.added found .earliest] }
  | discoveryEnded {now : Nat} (hrun : s.isRunning = true)
      (hstop : s.connector.phase.isStopping = true)
      (hwaiting : ∃ wake failures, s.discovery = some ⟨.waiting wake, failures⟩) :
      Step parts G s (.discover now) { s with discovery := none }
  /-- Discovery succeeds or fails; when it failed too often, fetching is cancelled. -/
  | searched {now : Nat} {discovery : Option DiscoveryLoop} {failure : Option SourceError}
      {discoverer : Option δ} {fetcher : Option Fetcher} {w : ω} (hrun : s.isRunning = true)
      (hlive : s.connector.phase.isStopping = false) (hmove : G s.world w)
      (hfetcher : fetcher = s.connector.fetcher ∧ failure = s.failure ∨
        fetcher = s.connector.fetcher.map Fetcher.cancel ∧ failure.isSome = true)
      (howned : ∀ found failures, discovery = some ⟨.adding found, failures⟩ →
        ∀ p ∈ found, s.connector.subtask.owns p = true)
      (hsearch : ∃ wake failures, s.discovery = some ⟨.waiting wake, failures⟩ ∧
        s.toConnectorRun.discover parts.discoverer now failures = { s.toConnectorRun with
          discovery := discovery, failure := failure
          connector := { s.connector with discoverer := discoverer, fetcher := fetcher }
          world := w }) :
      Step parts G s (.discover now) { s with
        discovery := discovery, failure := failure
        connector := { s.connector with discoverer := discoverer, fetcher := fetcher }, world := w }
  | finished (hrun : s.isRunning = true) (hresult : s.fetch.result? = some (.ok ()))
      (hfailure : s.failure = none) : Step parts G s .finish { s with isRunning := false }
  /-- A run that failed stops the connector. -/
  | failed (hrun : s.isRunning = true) :
      Step parts G s .finish { s with connector := s.connector.cancel, isRunning := false }
  | snapshotBegun {id : UInt64} {f : Fetcher} (hphase : s.connector.phase ≠ .created)
      (hf : s.connector.fetcher = some f) :
      Step parts G s (.beginSnapshot id) { s with
        connector := { s.connector with phase := s.connector.phase.shift .running .snapshotting }
        snapshots := s.snapshots ++ [(id, none)] }
  | copied {place : Nat} {id : UInt64} {f : Fetcher}
      (hplace : s.snapshots[place]? = some (id, none)) (hf : s.connector.fetcher = some f) :
      Step parts G s (.copySnapshot place) { s with
        connector := s.connector.resume
        snapshots := s.snapshots.set place (id, some f.offsets)
        history := s.history ++ [.copied f.offsets] }
  | snapshotEnded {place : Nat} {id : UInt64} {copied : OffsetState}
      (hplace : s.snapshots[place]? = some (id, some copied)) :
      Step parts G s (.endSnapshot place) { s with
        connector := (s.connector.endSnapshot id copied).2
        snapshots := s.snapshots.eraseIdx place }
  | completionBegun {id : UInt64} (hmode : s.connector.config.commitMode = .onCheckpoints)
      (hlive : s.connector.phase.isStopping = false) :
      Step parts G s (.beginCompletion id) { s with completions := s.completions ++ [id] }
  | completed {place : Nat} {id : UInt64} {w : ω} (hplace : s.completions[place]? = some id)
      (hw : w = s.world ∨ ∃ offsets positions, s.connector.CompletesWith id offsets positions ∧
        w = (parts.client.commit positions s.world).2) :
      Step parts G s (.commitPending place) { s with
        connector := { s.connector with pending := (s.connector.pending.complete id).2 }, world := w
        completions := s.completions.eraseIdx place }
  | cancelled : Step parts G s .cancel { s with connector := s.connector.cancel }
  | closed {discoverer : Option δ} {w : ω} (hmove : G s.world w)
      (hclose : (s.connector.close parts s.world).2 = ({ s.connector with
        phase := .closed, discoverer := discoverer
        fetcher := s.connector.fetcher.map Fetcher.cancel }, w)) :
      Step parts G s .close { s with
        connector := { s.connector with
          phase := .closed, discoverer := discoverer
          fetcher := s.connector.fetcher.map Fetcher.cancel }
        world := w }

variable {parts : Components δ ω} {G : ω → ω → Prop} (moves : parts.Moves G)
include moves

theorem perform_open_step (s : Session δ ω) : s.Step parts G .open (s.perform parts .open) := by
  have hmove := Connector.open_moves moves s.connector s.world
  simp only [perform]
  cases hr : (s.connector.open parts s.world).result with
  | error e =>
    rw [Connector.open_error hr]
    exact .openFailed hmove
  | ok _ =>
    obtain ⟨_, _, found, _, _, _, hphase, -, -, hc, -⟩ := Connector.open_ok hr
    rw [hc]
    exact .opened hphase hmove hr hc

theorem stepDiscovery_step (s : Session δ ω) (now : Nat) {l : DiscoveryLoop}
    (hrun : s.isRunning = true) (hl : s.discovery = some l) :
    s.Step parts G (.discover now) (s.stepDiscovery parts.discoverer now l) := by
  obtain ⟨stage, failures⟩ := l
  cases stage with
  | adding found =>
    refine .tracked hrun hl fun _ _ h => ?_
    cases h
  | waiting wake =>
    simp only [stepDiscovery, ConnectorRun.stepDiscovery, Option.toList_none, List.append_nil]
    cases hstop : s.connector.phase.isStopping with
    | true => exact .discoveryEnded hrun hstop ⟨wake, failures, hl⟩
    | false =>
      obtain ⟨discovery, failure, discoverer, fetcher, w, h, hmove, hfetcher, howned⟩ :=
        ConnectorRun.discover_cases moves now failures s.toConnectorRun
      rw [h]
      exact .searched hrun hstop hmove hfetcher howned ⟨wake, failures, hl, h⟩

/-- Whatever action is performed, it does one of these. -/
theorem perform_step (s : Session δ ω) (a : SessionAction) :
    s.Step parts G a (s.perform parts a) := by
  -- A section that is not to happen now, and an operation that is refused, leave the session alone.
  cases a with
  | restore bytes =>
    simp only [perform, Connector.restore]
    rcases Connector.restoreFrom_cases (Snapshot.read bytes) s.connector with h | ⟨hc, r, hr, h⟩
    · rw [h]
      exact .idle fun _ _ _ => SessionAction.noConfusion
    · rw [h]
      exact .restored rfl hc (Snapshot.read_storable hr)
  | restoreRelease release bytes =>
    simp only [perform, Connector.restoreRelease]
    rcases Connector.restoreFrom_cases (Snapshot.readFrom release bytes) s.connector with
      h | ⟨hc, r, hr, h⟩
    · rw [h]
      exact .idle fun _ _ _ => SessionAction.noConfusion
    · rw [h]
      exact .restored rfl hc (Snapshot.readAs_storable hr)
  | «open» => exact perform_open_step moves s
  | run =>
    simp only [perform]
    split
    next r hr =>
      obtain ⟨hphase, discovery, rfl, hdiscovery⟩ := ConnectorRun.begin_ok hr
      exact .begun hphase hdiscovery
    next => exact .idle fun _ _ _ => SessionAction.noConfusion
  | fetch now =>
    simp only [perform]
    split
    next f hrun hf => exact .fetched hrun hf
    next => exact .idle fun _ _ _ => SessionAction.noConfusion
  | discover now =>
    simp only [perform]
    split
    next l hrun hl => exact stepDiscovery_step moves s now hrun hl
    next => exact .idle fun _ _ _ => SessionAction.noConfusion
  | finish =>
    simp only [perform]
    split
    next result hrun hresult =>
      rcases ConnectorRun.finish_cases result s.toConnectorRun with ⟨h, rfl, hfailure⟩ | h
      · rw [h]
        exact .finished hrun hresult hfailure
      · rw [h]
        exact .failed hrun
    next => exact .idle fun _ _ _ => SessionAction.noConfusion
  | beginSnapshot id =>
    simp only [perform]
    split
    next c hc =>
      obtain ⟨hphase, ⟨f, hf⟩, rfl⟩ := Connector.beginSnapshot_ok hc
      exact .snapshotBegun hphase hf
    next => exact .idle fun _ _ _ => SessionAction.noConfusion
  | copySnapshot place =>
    simp only [perform, copySnapshot]
    split
    next id f hplace hf => exact .copied hplace hf
    next => exact .idle fun _ _ _ => SessionAction.noConfusion
  | endSnapshot place =>
    simp only [perform, endSnapshot]
    split
    next id copied hplace => exact .snapshotEnded hplace
    next hplace =>
      refine .idle fun other id copied h => ?_
      obtain rfl := SessionAction.endSnapshot.inj h
      exact hplace id copied
  | beginCompletion id =>
    simp only [perform]
    split
    next hgoes =>
      obtain ⟨hmode, hlive, -⟩ := Connector.completionAnswer?_eq_none hgoes
      exact .completionBegun hmode hlive
    next => exact .idle fun _ _ _ => SessionAction.noConfusion
  | commitPending place =>
    simp only [perform, commitPending]
    split
    next id hplace =>
      obtain ⟨w, h, hw⟩ := Connector.commitPending_cases parts.client id s.connector s.world
      rw [h]
      exact .completed hplace hw
    next => exact .idle fun _ _ _ => SessionAction.noConfusion
  | cancel => exact .cancelled
  | close =>
    rcases Connector.close_cases moves s.connector s.world with h | ⟨d, w, hmove, h⟩
    · simp only [perform, h]
      exact .idle fun _ _ _ => SessionAction.noConfusion
    · simp only [perform, h]
      exact .closed hmove h

omit moves

namespace Step

variable {s s' : Session δ ω} {a : SessionAction}

/-- Only restoring changes the restored offsets, and nothing changes the configuration. -/
theorem base (h : s.Step parts G a s') :
    s'.connector.config = s.connector.config ∧ s'.connector.subtask = s.connector.subtask ∧
      (s'.connector.restored = s.connector.restored ∨
        a.isRestore = true ∧
          ∃ restored, restored.Storable ∧ s'.connector.restored = some restored) := by
  cases h with
  | restored ha _ hrestored => exact ⟨rfl, rfl, Or.inr ⟨ha, _, hrestored, rfl⟩⟩
  | idle | opened | openFailed | begun | fetched | tracked | discoveryEnded | searched | finished
  | failed | snapshotBegun | copied | snapshotEnded | completionBegun | completed | cancelled
  | closed =>
    exact ⟨rfl, rfl, Or.inl rfl⟩

theorem isStopping (h : s.Step parts G a s') (hs : s.connector.phase.isStopping = true) :
    s'.connector.phase.isStopping = true := by
  cases h with
  | idle | restored | openFailed | fetched | tracked | discoveryEnded | searched | finished
  | snapshotEnded | completionBegun | completed => exact hs
  | opened hphase | begun hphase =>
    rw [hphase] at hs
    cases hs
  | failed | cancelled => exact Phase.isStopping_stop s.connector.phase
  | snapshotBegun | copied => exact Phase.isStopping_shift hs rfl
  | closed => rfl

theorem history_subset (h : s.Step parts G a s') : s.history ⊆ s'.history := by
  cases h with
  | fetched | tracked | copied => exact List.subset_append_left ..
  | idle | restored | opened | openFailed | begun | discoveryEnded | searched | finished | failed
  | snapshotBegun | snapshotEnded | completionBegun | completed | cancelled | closed =>
    exact List.Subset.refl _

end Step

theorem perform_base (parts : Components δ ω) (s : Session δ ω) (a : SessionAction) :
    (s.perform parts a).connector.config = s.connector.config ∧
      (s.perform parts a).connector.subtask = s.connector.subtask ∧
      ((s.perform parts a).connector.restored = s.connector.restored ∨
        a.isRestore = true ∧ ∃ restored, restored.Storable ∧
          (s.perform parts a).connector.restored = some restored) :=
  (perform_step parts.movesAnywhere s a).base

theorem performAll_append (parts : Components δ ω) (s : Session δ ω)
    (earlier later : List SessionAction) :
    s.performAll parts (earlier ++ later) = (s.performAll parts earlier).performAll parts later :=
  List.foldl_append

theorem performAll_config (parts : Components δ ω) (s : Session δ ω) (actions : List SessionAction) :
    (s.performAll parts actions).connector.config = s.connector.config := by
  induction actions generalizing s with
  | nil => rfl
  | cons a actions ih => exact (ih _).trans (perform_base parts s a).1

theorem performAll_subtask (parts : Components δ ω) (s : Session δ ω)
    (actions : List SessionAction) :
    (s.performAll parts actions).connector.subtask = s.connector.subtask := by
  induction actions generalizing s with
  | nil => rfl
  | cons a actions ih => exact (ih _).trans (perform_base parts s a).2.1

/-- Without an operation that restores, the restored offsets stay. -/
theorem performAll_base (parts : Components δ ω) (s : Session δ ω) {actions : List SessionAction}
    (h : ∀ a ∈ actions, a.isRestore = false) :
    s.connector.SameBase (s.performAll parts actions).connector := by
  induction actions generalizing s with
  | nil => exact Connector.SameBase.refl _
  | cons a actions ih =>
    obtain ⟨ha, hactions⟩ := List.forall_mem_cons.mp h
    obtain ⟨hconfig, hsubtask, hrestored⟩ := perform_base parts s a
    have hsame : (s.perform parts a).connector.restored = s.connector.restored :=
      hrestored.resolve_right fun hr => Bool.false_ne_true (ha.symm.trans hr.1)
    exact Connector.SameBase.trans ⟨hconfig, hsubtask, hsame⟩ (ih _ hactions)

end CheckpointedLog.Session
