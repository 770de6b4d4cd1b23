import CheckpointedLog.Connector.ConnectorRun
import CheckpointedLog.Fetch.FetchHistory

/-!
The life of a connector as a sequence of critical sections. Whoever holds the connector may call its
operations at any time and in any order; while a run goes on, its fetch loop and its discovery do steps
in between. A snapshot is not one critical section but three, because it waits for the offsets and for
what is pending, and the completion of a checkpoint is two: between them anything may happen.
-/
namespace CheckpointedLog

/-- One critical section in the life of a connector. -/
inductive SessionAction where
  | restore (bytes : Bytes)
  | restoreRelease (release : Release) (bytes : Bytes)
  | «open»
  /-- A run begins. -/
  | run
  /-- The fetch loop of the run does a step at the time `now`. -/
  | fetch (now : Nat)
  /-- Discovery beside the fetch loop does a step at the time `now`. -/
  | discover (now : Nat)
  /-- The run ends after its fetch loop. -/
  | finish
  | beginSnapshot (id : UInt64)
  /-- The offsets are copied for the snapshot at a place among those under way. -/
  | copySnapshot (place : Nat)
  /-- The snapshot at a place among those under way ends. -/
  | endSnapshot (place : Nat)
  | beginCompletion (id : UInt64)
  /-- The completion at a place among those under way commits what is pending for its checkpoint. -/
  | commitPending (place : Nat)
  | cancel
  | close
deriving DecidableEq, Repr

def SessionAction.isRestore : SessionAction → Bool
  | restore _ | restoreRelease .. => true
  | _ => false

/-- A connector with the calls that are under way, and what was seen of its fetching. -/
structure Session (δ ω : Type) extends ConnectorRun δ ω where
  isRunning : Bool := false
  /-- The snapshots under way, with the offsets once they were copied. -/
  snapshots : List (UInt64 × Option OffsetState) := []
  /-- The checkpoints whose completions are under way. -/
  completions : List UInt64 := []
  history : FetchHistory := []

namespace Session

variable {δ ω : Type}

def start (c : Connector δ) (w : ω) : Session δ ω := { connector := c, world := w }

/-- The records of a partition that were emitted, in this order. -/
def recordsOf (p : Partition) (s : Session δ ω) : List Record :=
  s.history.records.filter fun r => r.partition = p

/-- The partitions that discovery has marked and is about to track. -/
def awaited (s : Session δ ω) : List Partition :=
  match s.discovery with
  | some ⟨.adding found, _⟩ => found
  | _ => []

def stepFetch (client : BrokerClient ω) (now : Nat) (f : Fetcher) (s : Session δ ω) : Session δ ω :=
  let (run, emitted) := s.toConnectorRun.stepFetch client now f
  { s with toConnectorRun := run, history := s.history ++ (s.fetch.event? emitted).toList }

/-- A step of discovery; tracking new partitions is remembered. -/
def stepDiscovery (d : Discoverer δ ω) (now : Nat) (l : DiscoveryLoop) (s : Session δ ω) :
    Session δ ω :=
  let event : Option FetchEvent := match l.stage with
    | .adding found => some (.added found .earliest)
    | .waiting _ => none
  { s with
    toConnectorRun := s.toConnectorRun.stepDiscovery d now l
    history := s.history ++ event.toList }

/-- Copies the offsets for a snapshot that waits for them. -/
def copySnapshot (place : Nat) (s : Session δ ω) : Session δ ω :=
  match s.snapshots[place]?, s.connector.fetcher with
  | some (id, none), some f =>
    { s with
      connector := s.connector.resume
      snapshots := s.snapshots.set place (id, some f.offsets)
      history := s.history ++ [.copied f.offsets] }
  | _, _ => s

/-- Ends a snapshot for which the offsets were copied. -/
def endSnapshot (place : Nat) (s : Session δ ω) : Session δ ω :=
  match s.snapshots[place]? with
  | some (id, some copied) =>
    { s with
      connector := (s.connector.endSnapshot id copied).2
      snapshots := s.snapshots.eraseIdx place }
  | _ => s

/-- The second half of the completion of a checkpoint. -/
def commitPending (client : BrokerClient ω) (place : Nat) (s : Session δ ω) : Session δ ω :=
  match s.completions[place]? with
  | some id =>
    let (c, w) := s.connector.commitPending client id s.world
    { s with connector := c, world := w, completions := s.completions.eraseIdx place }
  | none => s

section

variable [Libraries]

/-- One critical section. One that is not possible at the moment does nothing. -/
def perform (parts : Components δ ω) (s : Session δ ω) : SessionAction → Session δ ω
  | .restore bytes => { s with connector := (s.connector.restore bytes).2 }
  | .restoreRelease release bytes =>
    { s with connector := (s.connector.restoreRelease release bytes).2 }
  | .open =>
    let opening := s.connector.open parts s.world
    { s with connector := opening.connector, world := opening.world }
  | .run =>
    match ConnectorRun.begin s.connector s.world with
    | .ok run => { s with toConnectorRun := run, isRunning := true }
    | .error _ => s
  | .fetch now =>
    match s.isRunning, s.connector.fetcher with
    | true, some f => s.stepFetch parts.client now f
    | _, _ => s
  | .discover now =>
    match s.isRunning, s.discovery with
    | true, some l => s.stepDiscovery parts.discoverer now l
    | _, _ => s
  | .finish =>
    match s.isRunning, s.fetch.result? with
    | true, some result =>
      { s with toConnectorRun := (s.toConnectorRun.finish result).1, isRunning := false }
    | _, _ => s
  | .beginSnapshot id =>
    match s.connector.beginSnapshot with
    | (.ok (), c) => { s with connector := c, snapshots := s.snapshots ++ [(id, none)] }
    | (.error _, _) => s
  | .copySnapshot place => s.copySnapshot place
  | .endSnapshot place => s.endSnapshot place
  | .beginCompletion id =>
    match s.connector.completionAnswer? with
    | none => { s with completions := s.completions ++ [id] }
    | some _ => s
  | .commitPending place => s.commitPending parts.client place
  | .cancel => { s with connector := s.connector.cancel }
  | .close =>
    let (_, c, w) := s.connector.close parts s.world
    { s with connector := c, world := w }

def performAll (parts : Components δ ω) (s : Session δ ω) (actions : List SessionAction) :
    Session δ ω :=
  actions.foldl (perform parts) s

end

end Session

end CheckpointedLog
