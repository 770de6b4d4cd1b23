import CheckpointedLog.Config.Source
import CheckpointedLog.Document
import CheckpointedLog.Json.Decode
import CheckpointedLog.Json.Value
import CheckpointedLog.Yaml.Decode

namespace CheckpointedLog

variable {ν : Type} [Document ν]

open Document

namespace Partition

def ofDocument? (n : ν) : Option Partition := do
  let fields ← fields? ["topic", "partition"] n
  return ⟨← required fields "topic" text?, ← required fields "partition" int32?⟩

end Partition

namespace Subtask

/-- Reads the index and the number of subtasks, without comparing them. -/
def indexAndCount? (n : ν) : Option (UInt64 × UInt64) := do
  let fields ← fields? ["index", "num_subtasks"] n
  return (← required fields "index" uint64?, ← required fields "num_subtasks" uint64?)

end Subtask

namespace Backoff

def ofDocument? (n : ν) : Option Backoff := do
  let fields ← fields? ["type", "initial_ms", "max_ms"] n
  let standard : Backoff := {}
  return {
    growth := ← optional fields "type" (fun n => (choice? n).bind BackoffGrowth.ofName?)
      standard.growth
    initialMs := ← optional fields "initial_ms" uint64? standard.initialMs
    maxMs := ← optional fields "max_ms" uint64? standard.maxMs }

def toJson (b : Backoff) : Json.Value :=
  .record [("type", .text b.growth.name), ("initial_ms", .int b.initialMs.toNat),
    ("max_ms", .int b.maxMs.toNat)]

end Backoff

namespace StartupMode

def ofDocument? (n : ν) : Option StartupMode := (choice? n).bind ofName?

end StartupMode

namespace StartPosition

def ofDocument? (n : ν) : Option StartPosition := do
  let fields ← fields? ["topic", "partition", "offset"] n
  let topic ← required fields "topic" text?
  let index ← required fields "partition" int32?
  return ⟨⟨topic, index⟩, ← required fields "offset" int64?⟩

def toJson (s : StartPosition) : Json.Value :=
  .record [("topic", .text s.partition.topic), ("partition", .int s.partition.index.toInt),
    ("offset", .int s.position.toInt)]

end StartPosition

namespace Offset

/-- The names of the places that are no concrete offsets. -/
def placeNames : List (String × Offset) :=
  [("earliest", earliest), ("latest", latest), ("group_offset", groupCommitted)]

/-- Reads an offset: the name of a place, or a record with the number. -/
def ofJson? (n : Json.Node) : Option Offset :=
  match n with
  | .object [(some "offset", n)] => (int64? n).map concrete
  | n => (choice? n).bind fun name => placeNames.lookup name

def toJson : Offset → Json.Value
  | concrete last => .record [("offset", .int last.toInt)]
  | earliest => .text "earliest"
  | latest => .text "latest"
  | groupCommitted => .text "group_offset"

end Offset

namespace Topics

def toField : Topics → String × Json.Value
  | list names => ("topics", .array (names.map .text))
  | pattern text => ("topic_pattern", .text text)

end Topics

namespace SourceConfig

/-- The names of the fields other than those of the subscription. -/
def fieldNames : List String :=
  ["discovery_interval_ms", "startup_mode", "specific_offsets", "checkpointing_enabled",
    "auto_commit_enabled", "poll_timeout_ms", "max_discovery_attempts", "backoff",
    "filter_restored_partitions_with_subscribed_topics"]

/-- Reads a configuration without checking its values. The fields of the subscription stand among the
others. -/
def ofDocument? (n : ν) : Option SourceConfig := do
  let fields ← pairs? n
  let others := fields.filter fun f => !fieldNames.contains f.1
  if !(others.all fun f => canKeep f.2) then none
  let standard : SourceConfig := { topics := .list [] }
  return {
    topics := ← Topics.ofFields? others
    discoveryIntervalMs :=
      ← optional fields "discovery_interval_ms" int64? standard.discoveryIntervalMs
    startup := ← optional fields "startup_mode" StartupMode.ofDocument? standard.startup
    startPositions :=
      ← optional fields "specific_offsets" (list? StartPosition.ofDocument?)
        standard.startPositions
    checkpointing := ← optional fields "checkpointing_enabled" flag? standard.checkpointing
    autoCommit := ← optional fields "auto_commit_enabled" flag? standard.autoCommit
    pollTimeoutMs := ← optional fields "poll_timeout_ms" uint64? standard.pollTimeoutMs
    maxDiscoveryAttempts :=
      ← optional fields "max_discovery_attempts" uint32? standard.maxDiscoveryAttempts
    backoff := ← optional fields "backoff" Backoff.ofDocument? standard.backoff
    filtersRestored :=
      ← optional fields "filter_restored_partitions_with_subscribed_topics" flag?
        standard.filtersRestored }

section

variable [Libraries]

def decodeJson (s : String) : Except SourceError SourceConfig :=
  ((Json.Node.parse? s).bind ofDocument?).elim (.error (.jsonSyntax (Libraries.jsonRefusal s))) .ok

def ofJson (s : String) : Except SourceError SourceConfig := do
  let c ← decodeJson s
  c.validate
  return c

def ofYaml (s : String) : Except SourceError SourceConfig := do
  let c ← ((Yaml.Node.parse? s).bind ofDocument?).elim
    (.error (.yamlSyntax (Libraries.yamlRefusal s))) .ok
  c.validate
  return c

end

def toJson (c : SourceConfig) : Json.Value :=
  .record
    [c.topics.toField,
      ("discovery_interval_ms", .int c.discoveryIntervalMs.toInt),
      ("startup_mode", .text c.startup.name),
      ("specific_offsets", .array (c.startPositions.map StartPosition.toJson)),
      ("checkpointing_enabled", .bool c.checkpointing),
      ("auto_commit_enabled", .bool c.autoCommit),
      ("poll_timeout_ms", .int c.pollTimeoutMs.toNat),
      ("max_discovery_attempts", .int c.maxDiscoveryAttempts.toNat),
      ("backoff", c.backoff.toJson),
      ("filter_restored_partitions_with_subscribed_topics", .bool c.filtersRestored)]

end SourceConfig

end CheckpointedLog
