import CheckpointedLog.Pattern.Reader
import CheckpointedLog.Proofs.Connector.Attempts
import CheckpointedLog.Proofs.Connector.Lifecycle

namespace CheckpointedLog

variable [Libraries] {δ ω : Type}

namespace Connector

/-- Nothing was opened, and there are no offsets but the restored ones. -/
structure Unset (c : Connector δ) : Prop where
  phase : c.phase = .created
  subscribed : c.subscribed = .empty
  discoverer : c.discoverer = none
  fetcher : c.fetcher = none
  pending : c.pending = .empty
  currentState : c.currentState = .empty

end Connector

namespace Session

/-- A session in which the connector is as it was created, the restored offsets aside. -/
structure AsCreated (config : SourceConfig) (subtask : Subtask) (s : Session δ ω) : Prop where
  connector : ∃ restored, s.connector = { config := config, subtask := subtask, restored := restored }
  snapshots : s.snapshots = []
  isRunning : s.isRunning = false

variable {parts : Components δ ω} {G : ω → ω → Prop} {config : SourceConfig} {subtask : Subtask}
  {s s' : Session δ ω} {a : SessionAction}

theorem asCreated_start {index count : UInt64} {c : Connector δ}
    (hc : Connector.create config index count = .ok c) (w : ω) :
    (start c w).AsCreated config c.subtask := by
  obtain ⟨-, t, -, rfl⟩ := Connector.create_ok hc
  exact ⟨⟨none, rfl⟩, rfl, rfl⟩

namespace AsCreated

omit [Libraries] in
theorem phase (h : s.AsCreated config subtask) : s.connector.phase = .created := by
  obtain ⟨restored, hc⟩ := h.connector
  rw [hc]

omit [Libraries] in
theorem unset (h : s.AsCreated config subtask) : s.connector.Unset := by
  obtain ⟨restored, hc⟩ := h.connector
  rw [hc]
  exact ⟨rfl, rfl, rfl, rfl, rfl, rfl⟩

theorem of_step (h : s.AsCreated config subtask) (hstep : s.Step parts G a s')
    (hphase : s'.connector.phase = .created) :
    s'.AsCreated config subtask ∧ (a.isRestore = false → s'.connector = s.connector) := by
  have hne {p : Phase} (hp : p.isStopping = true) : p ≠ .created := by
    rintro rfl
    cases hp
  cases hstep with
  | idle | openFailed => exact ⟨{ h with }, fun _ => rfl⟩
  | restored ha =>
    obtain ⟨restored, hc⟩ := h.connector
    rw [hc]
    exact ⟨{ h with connector := ⟨_, rfl⟩ }, fun hother => absurd (hother.symm.trans ha) nofun⟩
  | opened | begun | closed => cases hphase
  | fetched hrun | tracked hrun | discoveryEnded hrun | searched hrun | finished hrun | failed hrun =>
    cases h.isRunning.symm.trans hrun
  | snapshotBegun hlater => exact absurd h.phase hlater
  | copied hplace | snapshotEnded hplace =>
    rw [h.snapshots] at hplace
    cases hplace
  | completionBegun => exact ⟨{ h with }, fun _ => rfl⟩
  | @completed place id =>
    -- There is no pending offset that could be dropped.
    have hnone : (s.connector.pending.complete id).2 = s.connector.pending := by
      rw [h.unset.pending]
      rfl
    rw [hnone]
    exact ⟨{ h with }, fun _ => rfl⟩
  | cancelled => exact absurd hphase (hne (Phase.isStopping_stop s.connector.phase))

theorem perform (h : s.AsCreated config subtask) (parts : Components δ ω)
    (hphase : (s.perform parts a).connector.phase = .created) :
    (s.perform parts a).AsCreated config subtask ∧
      (a.isRestore = false → (s.perform parts a).connector = s.connector) :=
  h.of_step (perform_step parts.movesAnywhere s a) hphase

end AsCreated

theorem Step.created_before (h : s.Step parts G a s') (hphase : s'.connector.phase = .created) :
    s.connector.phase = .created := by
  have hrank := h.rank_le
  rw [hphase] at hrank
  cases hs : s.connector.phase with
  | created => rfl
  | opened | running | snapshotting | cancelling | closed =>
    rw [hs] at hrank
    exact absurd hrank (by decide)

theorem connector_perform_restore (parts : Components δ ω) {s f : Session δ ω}
    (hsame : f.connector = s.connector) (ha : a.isRestore = true) :
    (f.perform parts a).connector = (s.perform parts a).connector := by
  cases a with
  | restore bytes => simp only [perform, hsame]
  | restoreRelease release bytes => simp only [perform, hsame]
  | «open» | run | fetch | discover | finish | beginSnapshot | copySnapshot | endSnapshot
  | beginCompletion | commitPending | cancel | close => cases ha

/-- As long as the connector stays in the first phase, only what restores counts. -/
theorem AsCreated.performAll (h : s.AsCreated config subtask) (parts : Components δ ω)
    {actions : List SessionAction}
    (hphase : (s.performAll parts actions).connector.phase = .created) :
    (s.performAll parts actions).AsCreated config subtask ∧
      (s.performAll parts (actions.filter SessionAction.isRestore)).AsCreated config subtask ∧
      (s.performAll parts (actions.filter SessionAction.isRestore)).connector =
        (s.performAll parts actions).connector := by
  -- From the end, because it is the last phase that is known.
  induction actions using List.reverseRecOn with
  | nil => exact ⟨h, h, rfl⟩
  | append_singleton actions a ih =>
    rw [performAll_append] at hphase ⊢
    change ((s.performAll parts actions).perform parts a).connector.phase = .created at hphase
    change ((s.performAll parts actions).perform parts a).AsCreated config subtask ∧ _ ∧
      _ = ((s.performAll parts actions).perform parts a).connector
    have hstep := perform_step parts.movesAnywhere (s.performAll parts actions) a
    obtain ⟨hu, hf, hsame⟩ := ih (hstep.created_before hphase)
    obtain ⟨hnext, hkept⟩ := hu.perform parts hphase
    rw [List.filter_append, performAll_append]
    cases ha : a.isRestore with
    | true =>
      have hconnector := connector_perform_restore parts hsame ha
      rw [List.filter_singleton, ha]
      exact ⟨hnext, (hf.perform parts (hconnector ▸ hphase)).1, hconnector⟩
    | false =>
      rw [List.filter_singleton, ha]
      exact ⟨hnext, hf, hsame.trans (hkept ha).symm⟩

/-- Whatever a client and a discoverer do, and whatever was done with a connector before: an attempt to
open it that fails leaves it as it was. If nothing was opened, then nothing is, and the discoverer of the
attempt either did not start, or was closed once after its attempts to find partitions, whose failure is
the one that is reported. As long as nothing is opened later, every further attempt comes to exactly what
it would for a connector that was just created and to which only the restored offsets were given. -/
theorem failed_open_leaves_nothing {config : SourceConfig} {index count : UInt64} {c : Connector δ}
    (hc : Connector.create config index count = .ok c) (parts : Components δ ω) (w : ω)
    (earlier : List SessionAction) {e : SourceError}
    (hfailed : ((start c w).performAll parts earlier).answer? parts .open = some (.error e)) :
    let s := (start c w).performAll parts earlier
    let t := s.perform parts .open
    t.connector = s.connector ∧
      (s.connector.phase = .created → t.connector.Unset ∧ ∀ ledger, ∃ replies,
        s.connector.open parts.recorded (s.world, ledger) =
          { s.connector.open parts s.world with world := (t.world, ledger ++ replies) } ∧
        (replies = [.started (.error e)] ∨ ∃ (a : Attempts) (answer : Except SourceError Unit),
          a.Bounded (config.maxDiscoveryAttempts.toNat - 1) ∧
          a.result config.maxDiscoveryAttempts = .error e ∧
          replies = .started (.ok ()) :: (a.replies ++ [.closed answer]))) ∧
      ∀ later : List SessionAction, (t.performAll parts later).connector.phase = .created →
        ∀ (v : ω) (ledger : List DiscovererReply),
          (t.performAll parts later).connector.open parts.recorded (v, ledger) =
            ((start c w).performAll parts ((earlier ++ .open :: later).filter
              SessionAction.isRestore)).connector.open parts.recorded (v, ledger) := by
  intro s t
  have hresult : (s.connector.open parts s.world).result = .error e := Option.some.inj hfailed
  have hconnector : t.connector = s.connector := Connector.open_error hresult
  have hstart := asCreated_start hc w
  refine ⟨hconnector, fun hphase => ?_, fun later hphase v ledger => ?_⟩
  · have hs := (hstart.performAll parts hphase).1
    refine ⟨hconnector ▸ hs.unset, fun ledger => ?_⟩
    -- What was done before matters only in that the configuration is still the valid one.
    have hconfig : s.connector.config = config := by
      obtain ⟨restored, hconnector⟩ := hs.connector
      rw [hconnector]
    have hattempts : s.connector.config.maxDiscoveryAttempts ≠ 0 := by
      rw [hconfig]
      exact SourceConfig.maxDiscoveryAttempts_ne_zero (Connector.create_ok hc).1
    obtain ⟨replies, hreplies, hopen⟩ := Connector.open_recorded parts hphase hattempts s.world ledger
    refine ⟨replies, hopen, ?_⟩
    rw [hresult] at hreplies
    generalize (s.connector.open parts s.world).elapsedMs = elapsed at hreplies
    cases hreplies with
    | notStarted => exact Or.inl rfl
    | @notFound a _ answer hbounded hfound =>
      rw [hconfig] at hbounded hfound
      exact Or.inr ⟨a, answer, hbounded, hfound, rfl⟩
  · -- The attempt is one of the actions that leave the connector in the first phase.
    have hall : t.performAll parts later = (start c w).performAll parts (earlier ++ .open :: later) :=
      (performAll_append parts (start c w) earlier (.open :: later)).symm
    rw [hall] at hphase ⊢
    rw [(hstart.performAll parts hphase).2.2]

end Session

end CheckpointedLog

namespace CheckpointedLog.Session

open scoped Pattern

/-- A broker does not answer the only attempt to list its partitions, and the discoverer cannot even be
closed. The connector can be opened again, and starts at the restored offset. -/
theorem failed_open_leaves_nothing_though_unclosed :
    let parts : Components BrokerDiscoverer MemoryBroker :=
      ⟨MemoryBroker.client, { BrokerDiscoverer.discoverer MemoryBroker.client with
        close := fun d b => (.error (.transient "lost"), d.close, b) }⟩
    let config : SourceConfig := { topics := .list ["a"], maxDiscoveryAttempts := 1 }
    let c : Connector BrokerDiscoverer := { config := config, subtask := .single }
    let restored : OffsetState := SortedMap.empty.insert ⟨"a", 0⟩ (.concrete 4)
    let b := ((MemoryBroker.ofMaxBatch 1).createTopic "a" 2).failMetadata (.timeout 5)
    let s := (start c b).performAll parts [.restore (Snapshot.write restored)]
    let t := s.perform parts .open
    Connector.create config 0 1 = .ok c ∧
      s.answer? parts .open = some (.error (.discoveryExhausted 1
        "Partition discovery failed: failed to list partitions: Broker request timed out after 5ms")) ∧
      t.connector.Unset ∧
      t.connector.open parts.recorded (t.world, []) = s.connector.open parts.recorded (t.world, []) ∧
      (t.connector.open parts t.world).connector.subscribed.entries =
        [(⟨"a", 0⟩, .concrete 4), (⟨"a", 1⟩, .earliest)] := by
  intro parts config c restored b s t
  have hc : Connector.create config 0 1 = .ok c := by rfl
  have hfailed : s.answer? parts .open = some (.error (.discoveryExhausted 1
      "Partition discovery failed: failed to list partitions: Broker request timed out after 5ms")) := by
    decide +kernel
  obtain ⟨-, hunset, hagain⟩ := failed_open_leaves_nothing hc parts b
    [.restore (Snapshot.write restored)] hfailed
  have hphase : s.connector.phase = .created := by decide +kernel
  have hleft := (hunset hphase).1
  have hsubscribed : (t.connector.open parts t.world).connector.subscribed.entries =
      [(⟨"a", 0⟩, .concrete 4), (⟨"a", 1⟩, .earliest)] := by
    decide +kernel
  exact ⟨hc, hfailed, hleft, hagain [] hleft.phase t.world [], hsubscribed⟩

end CheckpointedLog.Session
