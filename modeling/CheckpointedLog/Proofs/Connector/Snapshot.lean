import CheckpointedLog.Broker.Memory
import CheckpointedLog.Pattern.Reader
import CheckpointedLog.Proofs.Connector.Session
import CheckpointedLog.Proofs.Fetch.Grounded

namespace CheckpointedLog

variable {δ ω : Type}

theorem FetchTrace.Regular.law (parts : Components δ ω) :
    FetchLaw parts (fun _ => True) (fun s t => t.Regular s) (fun _ _ => True) where
  moves := parts.movesAnywhere
  fresh _ _ := trivial
  begin settings _ hs := .begin settings _ hs
  step r now := r.of_step (FetchLoop.step_cases parts.client now _ _ _)
  copy r := r.copy parts.client
  add r found := r.add parts.client (show Offset.earliest.Storable from trivial) found
  cancel r := r.cancelled
  move r _ := r.inWorld _
  commit r _ _ := r.inWorld _

/-- A snapshot is read back as the live offsets exactly if all of them can be stored. -/
theorem Connector.snapshot_readable_iff {c c' : Connector δ} {id : UInt64} {bytes : Bytes}
    (h : c.snapshot id = (.ok bytes, c')) (hc : OffsetState.Countable c.currentState) :
    Snapshot.read bytes = .ok c.currentState ↔ OffsetState.Storable c.currentState := by
  obtain ⟨f, hf, rfl⟩ := snapshot_ok h
  rw [currentState_of_fetcher hf] at hc ⊢
  exact Snapshot.read_write_iff hc

variable [Libraries]

/-- What is known of fetching once a connector was opened, whatever its client does. -/
theorem Session.regular_of_created {parts : Components δ ω} {config : SourceConfig}
    {index count : UInt64} {c : Connector δ} (hc : Connector.create config index count = .ok c)
    (w : ω) (actions : List SessionAction) {f : Fetcher}
    (hf : ((Session.start c w).performAll parts actions).connector.fetcher = some f) :
    (((Session.start c w).performAll parts actions).trace f).Regular
      ((Session.start c w).performAll parts actions).connector.subscribed := by
  obtain ⟨hvalid, t, -, rfl⟩ := Connector.create_ok hc
  have hstart : (Session.start { config := config, subtask := t } w : Session δ ω).Sound
      (fun _ => True) (fun s t => t.Regular s) :=
    Session.Sound.start hvalid (fun _ hr => nomatch hr) rfl rfl (fun _ => rfl) trivial
  have hsound := hstart.performAll (FetchTrace.Regular.law parts) actions
  rcases hsound.stage with u | ⟨g, o⟩
  · cases u.fetcher.symm.trans hf
  · obtain rfl := Option.some.inj (o.fetcher.symm.trans hf)
    exact o.trace

/-- A snapshot of a session can be read back, as the live offsets, exactly if the broker brought in only
offsets that a snapshot can hold; in particular if it found no negative position for a sentinel. Then a
new connector accepts it. -/
theorem Session.snapshot_restorable_iff {parts : Components δ ω} {config : SourceConfig}
    {index count : UInt64} {c c' : Connector δ} (hc : Connector.create config index count = .ok c)
    (w : ω) (actions : List SessionAction) {id : UInt64} {bytes : Bytes}
    (h : ((Session.start c w).performAll parts actions).connector.snapshot id = (.ok bytes, c'))
    (hcount : OffsetState.Countable
      ((Session.start c w).performAll parts actions).connector.currentState) :
    let s := (Session.start c w).performAll parts actions
    (Snapshot.read bytes = .ok s.connector.currentState ↔ s.history.Restorable) ∧
      (s.history.Grounded → Snapshot.read bytes = .ok s.connector.currentState) ∧
      (s.history.Restorable → ∀ {δ' : Type} (fresh : Connector δ'), fresh.phase = .created →
        fresh.restore bytes = (.ok (), { fresh with restored := some s.connector.currentState })) := by
  intro s
  have hread := Connector.snapshot_readable_iff h hcount
  obtain ⟨f, hf, -⟩ := Connector.snapshot_ok h
  have hlive : s.connector.currentState = f.offsets := Connector.currentState_of_fetcher hf
  have hregular := Session.regular_of_created hc w actions hf
  have hiff : OffsetState.Storable s.connector.currentState ↔ s.history.Restorable := by
    rw [hlive]
    exact FetchTrace.storable_iff hregular.consistent hregular.rooted
  refine ⟨hread.trans hiff, fun hg => hread.mpr ?_, fun hr δ' fresh hfresh => ?_⟩
  · rw [hlive]
    exact (hregular.grounded hg).offsets
  · exact Connector.restore_ok hfresh (hread.mpr (hiff.mpr hr))

end CheckpointedLog

namespace CheckpointedLog.Session

open scoped Pattern

/-- The group committed position 5, so the snapshot of the offset before it can be read back. -/
theorem snapshot_of_committed_position :
    let parts : Components BrokerDiscoverer MemoryBroker :=
      ⟨MemoryBroker.client, BrokerDiscoverer.discoverer MemoryBroker.client⟩
    let c : Connector BrokerDiscoverer := { config := { topics := .list ["t"] }, subtask := .single }
    let b := ((MemoryBroker.ofMaxBatch 1).createTopic "t" 1).setCommitted ⟨"t", 0⟩ 5
    let s := (Session.start c b).performAll parts [.open, .run, .fetch 0, .fetch 0, .fetch 0]
    s.connector.currentState.entries = [(⟨"t", 0⟩, .concrete 4)] ∧
      (s.connector.snapshot 1).1 = .ok (Snapshot.write s.connector.currentState) ∧
      Snapshot.read (Snapshot.write s.connector.currentState) = .ok s.connector.currentState := by
  intro parts c b s
  have hentries : s.connector.currentState.entries = [(⟨"t", 0⟩, .concrete 4)] := by
    simp only [parts, c, b, s]
    rfl
  have hsnapshot :
      (s.connector.snapshot 1).1 = .ok (Snapshot.write s.connector.currentState) := by
    simp only [parts, c, b, s]
    rfl
  have hhistory : s.history = [.resolved ⟨"t", 0⟩ 5] := by
    simp only [parts, c, b, s]
    rfl
  have hcount : OffsetState.Countable s.connector.currentState := by
    apply OffsetState.countable_of_entries
    · rw [hentries]
      decide
    · rw [hentries]
      decide
  have hgrounded : s.history.Grounded := by
    rw [hhistory]
    intro p n hn
    obtain ⟨-, rfl⟩ := FetchEvent.resolved.inj (List.mem_singleton.mp hn)
    decide
  have hcreated : Connector.create c.config 0 1 = .ok c := by
    simp only [c]
    rfl
  -- From here on the run is not to be evaluated again.
  clear_value parts c b
  exact ⟨hentries, hsnapshot,
    (Session.snapshot_restorable_iff hcreated b _ (Prod.ext hsnapshot rfl) hcount).2.1 hgrounded⟩

/-- The group committed position -1. The snapshot of the offset before it cannot be read back. -/
theorem snapshot_of_negative_position :
    let parts : Components BrokerDiscoverer MemoryBroker :=
      ⟨MemoryBroker.client, BrokerDiscoverer.discoverer MemoryBroker.client⟩
    let c : Connector BrokerDiscoverer := { config := { topics := .list ["t"] }, subtask := .single }
    let b := ((MemoryBroker.ofMaxBatch 1).createTopic "t" 1).setCommitted ⟨"t", 0⟩ (-1)
    let s := (Session.start c b).performAll parts [.open, .run, .fetch 0, .fetch 0, .fetch 0]
    Connector.create c.config 0 1 = .ok c ∧
      s.connector.currentState.entries = [(⟨"t", 0⟩, .concrete (-2))] ∧
      (s.connector.snapshot 1).1 = .ok (Snapshot.write s.connector.currentState) ∧
      Snapshot.read (Snapshot.write s.connector.currentState) =
        .error (.corrupt (.invalidOffset (-2) ⟨"t", 0⟩)) := by
  intro parts c b s
  simp only [parts, c, b, s]
  exact ⟨rfl, rfl, rfl, rfl⟩

end CheckpointedLog.Session
