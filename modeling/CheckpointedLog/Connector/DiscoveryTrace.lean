import CheckpointedLog.Connector.Session

/-!
Periodic discovery on a clock. While a run goes on, its fetch loop and its discovery do steps at the
present time, operations are called, and the clock moves on; it stands still when discovery has to look
for partitions. The trace remembers the cycles of discovery: when each one began and ended, and with
which failure.
-/
namespace CheckpointedLog

variable {δ ω : Type}

/-- A cycle of periodic discovery that has ended. -/
structure DiscoveryCycle where
  /-- The time at which it was looked for partitions. -/
  begun : Nat
  /-- The time of the failure, or that at which what was found was tracked. -/
  ended : Nat
  failure : Option SourceError := none
deriving DecidableEq, Repr

namespace DiscoveryCycle

def streak (cycles : List DiscoveryCycle) : Nat :=
  (cycles.reverse.takeWhile fun x => x.failure.isSome).length

/-- The end of the last cycle, or the beginning of the run. -/
def lastEnd (cycles : List DiscoveryCycle) : Nat := (cycles.getLast?.map (·.ended)).getD 0

def pauseAfter (config : SourceConfig) (cycles : List DiscoveryCycle) : Nat :=
  match streak cycles with
  | 0 => config.discoveryIntervalMs.toInt.toNat
  | failures + 1 => config.backoff.delay (UInt32.ofNat failures)

def due (config : SourceConfig) (cycles : List DiscoveryCycle) : Nat :=
  lastEnd cycles + pauseAfter config cycles

end DiscoveryCycle

def Session.search (d : Discoverer δ ω) (s : Session δ ω) : Except SourceError (List Partition) :=
  match s.connector.discoverer with
  | none => .error (s.connector.phase.refusal "discover partitions")
  | some state => (d.discover state s.world).1

/-- Something that happens while a run goes on. -/
inductive ClockAction (ω : Type) where
  /-- The fetch loop does a step. -/
  | fetch
  /-- Discovery does a step if it has something to do. -/
  | discover
  | call (a : SessionAction)
  /-- The clock moves on. -/
  | pass (time : Nat)
  /-- The world behind the client becomes another one. -/
  | world (w : ω)

/-- Whether the action is an operation of a connector that does not stop it. -/
def SessionAction.leavesRun : SessionAction → Bool
  | .fetch _ | .discover _ | .finish | .cancel | .close => false
  | _ => true

/-- Whether the connector is not stopped by the action. -/
def ClockAction.leavesRun : ClockAction ω → Bool
  | .call a => a.leavesRun
  | _ => true

/-- A session on a clock, since the beginning of a run. -/
structure DiscoveryTrace (δ ω : Type) where
  session : Session δ ω
  now : Nat := 0
  cycles : List DiscoveryCycle := []
  /-- The beginning of the cycle that is under way. -/
  searching : Option Nat := none

namespace DiscoveryTrace

variable [Libraries]

def begin (parts : Components δ ω) (s : Session δ ω) : DiscoveryTrace δ ω :=
  { session := s.perform parts .run }

def stepDiscovery (parts : Components δ ω) (t : DiscoveryTrace δ ω) : DiscoveryTrace δ ω :=
  let next := { t with session := t.session.perform parts (.discover t.now) }
  match t.session.discovery with
  | none => t
  | some ⟨.adding _, _⟩ =>
    let cycle := t.searching.map fun begun => ⟨begun, t.now, none⟩
    { next with cycles := t.cycles ++ cycle.toList, searching := none }
  | some ⟨.waiting wake, _⟩ =>
    if t.session.connector.phase.isStopping then next
    else if t.now < wake then t
    else match t.session.search parts.discoverer with
      | .ok _ => { next with searching := some t.now }
      | .error e => { next with cycles := t.cycles ++ [⟨t.now, t.now, some e⟩] }

/-- The time to which the clock may move on if it is to go to another one. -/
def reachable (time : Nat) (t : DiscoveryTrace δ ω) : Nat :=
  match t.session.discovery with
  | some ⟨.waiting wake, _⟩ => min time wake
  | _ => time

def perform (parts : Components δ ω) (t : DiscoveryTrace δ ω) : ClockAction ω → DiscoveryTrace δ ω
  | .fetch => { t with session := t.session.perform parts (.fetch t.now) }
  | .discover => t.stepDiscovery parts
  | .call a => { t with session := t.session.perform parts a }
  | .pass time => { t with now := max t.now (t.reachable time) }
  | .world w => { t with session := { t.session with world := w } }

def performAll (parts : Components δ ω) (t : DiscoveryTrace δ ω) (actions : List (ClockAction ω)) :
    DiscoveryTrace δ ω :=
  actions.foldl (perform parts) t

end DiscoveryTrace

end CheckpointedLog
