import CheckpointedLog.Backoff
import CheckpointedLog.Checkpoint.CommitMode
import CheckpointedLog.Config.Topics
import CheckpointedLog.OffsetState

namespace CheckpointedLog

/-- Where a partition starts for which nothing was restored. -/
inductive StartupMode where
  | earliest
  | latest
  | groupOffsets
  | specificOffsets
deriving DecidableEq, Repr, Inhabited

namespace StartupMode

def all : List StartupMode := [earliest, latest, groupOffsets, specificOffsets]

def name : StartupMode → String
  | earliest => "earliest"
  | latest => "latest"
  | groupOffsets => "group_offsets"
  | specificOffsets => "specific_offsets"

def ofName? (s : String) : Option StartupMode := all.find? fun m => m.name == s

end StartupMode

/-- The first record to read of a partition. -/
structure StartPosition where
  partition : Partition
  position : Position
deriving DecidableEq, Repr

structure SourceConfig where
  topics : Topics
  /-- Milliseconds between two discoveries; there are none after the first unless it is positive. -/
  discoveryIntervalMs : Int64 := Int64.minValue
  startup : StartupMode := .groupOffsets
  /-- Where partitions start if the mode is `specificOffsets`. -/
  startPositions : List StartPosition := []
  checkpointing : Bool := false
  autoCommit : Bool := false
  pollTimeoutMs : UInt64 := 100
  /-- How many discoveries may fail in a row. -/
  maxDiscoveryAttempts : UInt32 := 3
  backoff : Backoff := {}
  /-- Whether restored partitions of topics that are not subscribed any more are dropped. -/
  filtersRestored : Bool := true
deriving Repr, Inhabited

namespace SourceConfig

section

variable [Libraries]

def refuse (field message : String) : Except SourceError Unit := .error (.invalidValue field message)

def validateTopics : Topics → Except SourceError Unit
  | .list [] => refuse "topics" "at least one topic required"
  | .list names =>
    if names.contains "" then refuse "topics" "topic names must not be empty" else .ok ()
  | t@(.pattern _) => t.compilePattern.map fun _ => ()

/-- Checks the values of the fields; the first one that is refused is reported. -/
def validate (c : SourceConfig) : Except SourceError Unit := do
  validateTopics c.topics
  if c.pollTimeoutMs = 0 then refuse "poll_timeout_ms" "must be positive"
  if c.maxDiscoveryAttempts = 0 then refuse "max_discovery_attempts" "must be at least 1"
  if c.startup = .specificOffsets ∧ c.startPositions = [] then
    refuse "specific_offsets" "required when startup_mode is specific_offsets"
  match c.startPositions.find? fun s => s.position < 0 with
  | some s => refuse "specific_offsets" ("negative offset for " ++ s.partition.display)
  | none => .ok ()

end

/-- Milliseconds between two discoveries, if there is more than one. -/
def discoveryInterval? (c : SourceConfig) : Option Nat :=
  if 0 < c.discoveryIntervalMs then some c.discoveryIntervalMs.toInt.toNat else none

def commitMode (c : SourceConfig) : CommitMode := .ofFlags c.checkpointing c.autoCommit

/-- The given start positions; of several for one partition the last one counts. -/
def startPositionMap (c : SourceConfig) : OffsetMap :=
  SortedMap.ofList (c.startPositions.map fun s => (s.partition, s.position))

/-- The offset at which a partition starts for which nothing was restored. A start position names the
first record to read, the offset the one before it. -/
def startupOffset (c : SourceConfig) (p : Partition) : Offset :=
  match c.startup with
  | .earliest => .earliest
  | .latest => .latest
  | .groupOffsets => .groupCommitted
  | .specificOffsets =>
    match c.startPositionMap.get? p with
    | some position => .concrete (position - 1)
    | none => .groupCommitted

end SourceConfig

end CheckpointedLog
