import CheckpointedLog.Assignment
import CheckpointedLog.Checkpoint.Pending
import CheckpointedLog.Config.Source
import CheckpointedLog.Connector.Phase
import CheckpointedLog.Discovery.Discoverer
import CheckpointedLog.Fetch.Fetcher
import CheckpointedLog.Snapshot.Format

namespace CheckpointedLog

/-- What a connector works with in a world of type `ω`: a client and a way to find partitions. -/
structure Components (δ ω : Type) where
  client : BrokerClient ω
  discoverer : Discoverer δ ω

/-- A connector whose discoverer has a state of type `δ`. -/
structure Connector (δ : Type) where
  config : SourceConfig
  subtask : Subtask
  phase : Phase := .created
  restored : Option OffsetState := none
  /-- The offsets as they were merged when the connector was opened. -/
  subscribed : OffsetState := .empty
  discoverer : Option δ := none
  fetcher : Option Fetcher := none
  pending : PendingCheckpoints := .empty

namespace Connector

variable {δ ω : Type}

def create [Libraries] (config : SourceConfig) (index count : UInt64) : Except SourceError (Connector δ) := do
  config.validate
  let subtask ← Subtask.ofIndex index count
  return { config := config, subtask := subtask }

/-- The offsets of all records that were emitted. -/
def currentState (c : Connector δ) : OffsetState := c.fetcher.elim .empty (·.offsets)

def require (operation : String) (allowed : List Phase) (c : Connector δ) :
    Except SourceError Unit :=
  if allowed.contains c.phase then .ok () else .error (c.phase.refusal operation)

/-- Remembers offsets that were read from a snapshot. -/
def restoreFrom (decoded : Except Snapshot.Fault OffsetState) (c : Connector δ) :
    Except SourceError Unit × Connector δ :=
  match c.require "restore state" [.created] with
  | .error e => (.error e, c)
  | .ok () =>
    match decoded with
    | .error fault => (.error fault.toError, c)
    | .ok s => (.ok (), { c with restored := some s })

def restore (bytes : Bytes) (c : Connector δ) : Except SourceError Unit × Connector δ :=
  c.restoreFrom (Snapshot.read bytes)

def restoreRelease (release : Release) (bytes : Bytes) (c : Connector δ) :
    Except SourceError Unit × Connector δ :=
  c.restoreFrom (Snapshot.readFrom release bytes)

def keepsTopic [Libraries] (config : SourceConfig) (topic : String) : Bool :=
  !config.filtersRestored || config.topics.covers topic

def merge [Libraries] (c : Connector δ) (owned : List Partition) : OffsetState :=
  match c.restored with
  | none => SortedMap.ofList (owned.map fun p => (p, c.config.startupOffset p))
  | some restored =>
    -- What is new since the snapshot is read from its beginning, whatever the configuration says.
    let kept : OffsetState := restored.filter fun p _ => c.subtask.owns p && keepsTopic c.config p.topic
    (kept.addPartitions .earliest owned).2

/-- Tries to find the partitions, waiting between attempts whose failures pass. `attempt` counts the
attempts before, `left` those that are still allowed after the next one; `waited` is the time spent so
far, in milliseconds. -/
def discoverWithRetry (d : Discoverer δ ω) (backoff : Backoff) (attempt : UInt32) :
    (left : Nat) → (waited : Nat) → δ → ω → Except SourceError (List Partition) × Nat × δ × ω
  | left, waited, s, w =>
    match d.discover s w with
    | (.ok ps, s, w) => (.ok ps, waited, s, w)
    | (.error e, s, w) =>
      if !e.isRetryable then (.error e, waited, s, w)
      else match left with
        | 0 => (.error (.discoveryExhausted (attempt + 1) e.message), waited, s, w)
        | left + 1 =>
          discoverWithRetry d backoff (attempt + 1) left (waited + backoff.delay attempt) s w

def fetchSettings (config : SourceConfig) : FetchSettings :=
  ⟨config.pollTimeoutMs.toNat, config.backoff⟩

/-- What an attempt to open a connector came to. -/
structure Opening (δ ω : Type) where
  result : Except SourceError Unit
  elapsedMs : Nat := 0
  connector : Connector δ
  world : ω

def «open» [Libraries] (parts : Components δ ω) (c : Connector δ) (w : ω) : Opening δ ω :=
  match c.require "open" [.created] with
  | .error e => { result := .error e, connector := c, world := w }
  | .ok () =>
    let d := parts.discoverer
    match d.start (d.create c.config.topics) w with
    | (.error e, _, w) => { result := .error e, connector := c, world := w }
    | (.ok (), s, w) =>
      match discoverWithRetry d c.config.backoff 0 (c.config.maxDiscoveryAttempts.toNat - 1) 0 s w
        with
      | (.error e, elapsedMs, s, w) =>
        -- The connector stays as it was, so that opening can be tried again.
        let (_, _, w) := d.close s w
        { result := .error e, elapsedMs := elapsedMs, connector := c, world := w }
      | (.ok discovered, elapsedMs, s, w) =>
        let offsets := c.merge (c.subtask.assign discovered)
        let (_, s, w) := d.markAll offsets.keys s w
        { result := .ok ()
          elapsedMs := elapsedMs
          connector := { c with
            phase := .opened
            subscribed := offsets
            discoverer := some s
            fetcher := some { settings := fetchSettings c.config, offsets := offsets } }
          world := w }

/-- The beginning of a snapshot: checks the phase, and goes from running to snapshotting. -/
def beginSnapshot (c : Connector δ) : Except SourceError Unit × Connector δ :=
  match c.require "snapshot state" [.opened, .running, .snapshotting] with
  | .error e => (.error e, c)
  | .ok () =>
    match c.fetcher with
    | none => (.error (c.phase.refusal "use fetcher"), c)
    | some _ => (.ok (), { c with phase := c.phase.shift .running .snapshotting })

/-- Once the offsets were copied, the connector is running again. -/
def resume (c : Connector δ) : Connector δ :=
  { c with phase := c.phase.shift .snapshotting .running }

/-- The end of a snapshot for which the offsets were copied: remembers them until the checkpoint
completes. -/
def endSnapshot (id : UInt64) (copied : OffsetState) (c : Connector δ) : Bytes × Connector δ :=
  let pending :=
    if c.config.commitMode = .onCheckpoints then c.pending.remember id copied.concreteOffsets
    else c.pending
  (Snapshot.write copied, { c with pending := pending })

def snapshot (id : UInt64) (c : Connector δ) : Except SourceError Bytes × Connector δ :=
  match c.beginSnapshot with
  | (.error e, c) => (.error e, c)
  | (.ok (), c) =>
    let (bytes, c) := c.resume.endSnapshot id c.currentState
    (.ok bytes, c)

/-- What the completion of a checkpoint answers at once; nothing if it goes on. -/
def completionAnswer? (c : Connector δ) : Option (Except SourceError Unit) :=
  if c.config.commitMode ≠ .onCheckpoints then some (.ok ())
  else if c.phase.isStopping then some (.ok ())
  else match c.fetcher with
    | none => some (.error (c.phase.refusal "use fetcher"))
    | some _ => none

/-- Commits the offsets of the snapshot of a completed checkpoint. Nothing happens between taking them
from those that are pending and asking the client. -/
def commitPending (client : BrokerClient ω) (id : UInt64) (c : Connector δ) (w : ω) :
    Connector δ × ω :=
  match c.pending.complete id with
  | (none, pending) => ({ c with pending := pending }, w)
  | (some offsets, pending) =>
    -- A commit that fails is not tried again. The phase is not checked again either.
    let (_, w) := Fetcher.commit client offsets w
    ({ c with pending := pending }, w)

def notifyComplete (client : BrokerClient ω) (id : UInt64) (c : Connector δ) (w : ω) :
    Except SourceError Unit × Connector δ × ω :=
  match c.completionAnswer? with
  | some answer => (answer, c, w)
  | none => (.ok (), c.commitPending client id w)

def cancel (c : Connector δ) : Connector δ :=
  { c with phase := c.phase.stop, fetcher := c.fetcher.map Fetcher.cancel }

def closeDiscoverer (d : Discoverer δ ω) (c : Connector δ) (w : ω) :
    Except SourceError Unit × Connector δ × ω :=
  match c.discoverer with
  | none => (.ok (), c, w)
  | some s =>
    let (r, s, w) := d.close s w
    (r, { c with discoverer := some s }, w)

def closeFetcher (client : BrokerClient ω) (c : Connector δ) (w : ω) :
    Except SourceError Unit × Connector δ × ω :=
  match c.fetcher with
  | none => (.ok (), c, w)
  | some f =>
    let (r, f, w) := f.close client w
    (r, { c with fetcher := some f }, w)

/-- Stops everything and releases it; the first failure is reported. -/
def close (parts : Components δ ω) (c : Connector δ) (w : ω) :
    Except SourceError Unit × Connector δ × ω :=
  if c.phase = .closed then (.ok (), c, w)
  else
    let (first, c, w) := c.cancel.closeDiscoverer parts.discoverer w
    let (second, c, w) := c.closeFetcher parts.client w
    (first.bind fun _ => second, { c with phase := .closed }, w)

end Connector

end CheckpointedLog
