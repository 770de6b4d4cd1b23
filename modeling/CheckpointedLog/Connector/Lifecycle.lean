import CheckpointedLog.Connector.Session

/-!
The operations of a connector as whoever calls them sees them: what an operation answers, and in which
phases it is refused. Closing is not one critical section but several, because it waits for the
discoverer and for the client; between them anything may happen.
-/
namespace CheckpointedLog

variable {δ ω : Type}

/-- What an operation that the phase does not allow answers. Where a connector that was asked to stop has
nothing left to do, this is no failure. -/
def SessionAction.refusal? (mode : CommitMode) (phase : Phase) :
    SessionAction → Option (Except SourceError Unit)
  | .restore _ | .restoreRelease .. =>
    if phase = .created then none else some (.error (phase.refusal "restore state"))
  | .open => if phase = .created then none else some (.error (phase.refusal "open"))
  | .run =>
    if phase = .opened then none
    else if phase.isStopping then some (.ok ())
    else some (.error (phase.refusal "run"))
  | .beginSnapshot _ =>
    if phase ∈ [.opened, .running, .snapshotting] then none
    else some (.error (phase.refusal "snapshot state"))
  | .beginCompletion _ =>
    if mode ≠ .onCheckpoints then none
    else if phase.isStopping then some (.ok ())
    else if phase = .created then some (.error (phase.refusal "use fetcher"))
    else none
  | .close => if phase = .closed then some (.ok ()) else none
  -- Asking to stop is always allowed, and the sections inside of an operation are not asked for.
  | .cancel | .fetch _ | .discover _ | .finish | .copySnapshot _ | .endSnapshot _
  | .commitPending _ => none

/-- The phase after an operation that the phase allows, where it does not depend on anything else. -/
def SessionAction.target? (phase : Phase) : SessionAction → Option Phase
  | .run => some .running
  | .beginSnapshot _ => some (phase.shift .running .snapshotting)
  | .cancel => some phase.stop
  | .close => some .closed
  | _ => none

/-- What an operation that restores finds in the bytes that it is given. -/
def SessionAction.decoded? : SessionAction → Option (Except Snapshot.Fault OffsetState)
  | .restore bytes => some (Snapshot.read bytes)
  | .restoreRelease release bytes => some (Snapshot.readFrom release bytes)
  | _ => none

/-- What the operation answers that ends with an action, the bytes of a snapshot aside; nothing if it
goes on. -/
def Session.answer? [Libraries] (parts : Components δ ω) (s : Session δ ω) :
    SessionAction → Option (Except SourceError Unit)
  | .restore bytes => some (s.connector.restore bytes).1
  | .restoreRelease release bytes => some (s.connector.restoreRelease release bytes).1
  | .open => some (s.connector.open parts s.world).result
  | .run =>
    match ConnectorRun.begin s.connector s.world with
    | .ok _ => none
    | .error answer => some answer
  | .finish =>
    match s.isRunning, s.fetch.result? with
    | true, some result => some (s.toConnectorRun.finish result).2
    | _, _ => none
  | .beginSnapshot _ =>
    match s.connector.beginSnapshot with
    | (.ok (), _) => none
    | (.error e, _) => some (.error e)
  | .endSnapshot place =>
    match s.snapshots[place]? with
    | some (_, some _) => some (.ok ())
    | _ => none
  | .beginCompletion _ => s.connector.completionAnswer?
  | .commitPending place => if place < s.completions.length then some (.ok ()) else none
  | .cancel => some (.ok ())
  | .close => some (s.connector.close parts s.world).1
  | .fetch _ | .discover _ | .copySnapshot _ => none

/-- Where a call that closes the connector is, after the connector was asked to stop. -/
inductive ClosingStage where
  /-- The discoverer is to be closed. -/
  | discoverer
  /-- Fetching is to be closed; `first` is what closing the discoverer gave. -/
  | fetcher (first : Except SourceError Unit)
  /-- Everything was asked to close. -/
  | ending (result : Except SourceError Unit)

/-- One critical section in the life of a connector, where closing takes several of them. -/
inductive LifecycleAction where
  | session (a : SessionAction)
  | beginClose
  /-- The call that closes at a place among those under way does its next section. -/
  | continueClose (place : Nat)
deriving DecidableEq, Repr

def LifecycleAction.refusal? (mode : CommitMode) (phase : Phase) :
    LifecycleAction → Option (Except SourceError Unit)
  | .session a => a.refusal? mode phase
  | .beginClose => SessionAction.close.refusal? mode phase
  | .continueClose _ => none

/-- A session with the calls that close the connector and are under way. -/
structure Lifecycle (δ ω : Type) extends Session δ ω where
  closing : List ClosingStage := []

namespace Lifecycle

def start (c : Connector δ) (w : ω) : Lifecycle δ ω := { Session.start c w with }

/-- Begins to close the connector, unless it is closed already. -/
def beginClose (s : Lifecycle δ ω) : Lifecycle δ ω :=
  if s.connector.phase = .closed then s
  else { s with connector := s.connector.cancel, closing := s.closing ++ [.discoverer] }

/-- The next section of a call that closes the connector. -/
def continueClose (parts : Components δ ω) (place : Nat) (s : Lifecycle δ ω) : Lifecycle δ ω :=
  match s.closing[place]? with
  | none => s
  | some .discoverer =>
    let (first, c, w) := s.connector.closeDiscoverer parts.discoverer s.world
    { s with connector := c, world := w, closing := s.closing.set place (.fetcher first) }
  | some (.fetcher first) =>
    let (second, c, w) := s.connector.closeFetcher parts.client s.world
    let result := first.bind fun _ => second
    { s with connector := c, world := w, closing := s.closing.set place (.ending result) }
  | some (.ending _) =>
    { s with
      connector := { s.connector with phase := .closed }
      closing := s.closing.eraseIdx place }

variable [Libraries]

def perform (parts : Components δ ω) (s : Lifecycle δ ω) : LifecycleAction → Lifecycle δ ω
  | .session a => { s with toSession := s.toSession.perform parts a }
  | .beginClose => s.beginClose
  | .continueClose place => s.continueClose parts place

def performAll (parts : Components δ ω) (s : Lifecycle δ ω) (actions : List LifecycleAction) :
    Lifecycle δ ω :=
  actions.foldl (perform parts) s

/-- What the operation answers that ends with an action, as for sessions. -/
def answer? (parts : Components δ ω) (s : Lifecycle δ ω) :
    LifecycleAction → Option (Except SourceError Unit)
  | .session a => s.toSession.answer? parts a
  | .beginClose => if s.connector.phase = .closed then some (.ok ()) else none
  | .continueClose place =>
    match s.closing[place]? with
    | some (.ending result) => some result
    | _ => none

end Lifecycle

end CheckpointedLog
