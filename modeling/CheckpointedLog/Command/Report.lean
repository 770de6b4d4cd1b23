import CheckpointedLog.Assignment
import CheckpointedLog.Command.Invocation
import CheckpointedLog.Config.File
import CheckpointedLog.Snapshot.Format
import CheckpointedLog.Snapshot.Store

namespace CheckpointedLog.Command

open Json (Value)

def offsetValue : Offset → Value
  | .concrete last => .int last.toInt
  | o => .text o.display

def partitionFields (p : Partition) : List (String × Value) :=
  [("topic", .text p.topic), ("partition", .int p.index.toInt)]

def stateValue (s : OffsetState) : Value :=
  .array (s.entries.map fun (p, o) => .record (("offset", offsetValue o) :: partitionFields p))

def logReport (message : String) : Value :=
  .record [("type", .text "LOG"),
    ("log", .record [("level", .text "INFO"), ("message", .text message)])]

/-- The state in the bytes of a snapshot, which a given release wrote or any. -/
def decode (release : Option String) (bytes : Bytes) : Except SourceError OffsetState :=
  match release with
  | none => (Snapshot.read bytes).mapError Snapshot.Fault.toError
  | some name => do
    (Snapshot.readFrom (← Release.ofName name) bytes).mapError Snapshot.Fault.toError

def formName (bytes : Bytes) : Except SourceError String :=
  match Snapshot.formatVersion bytes with
  | .ok none => .ok "unversioned"
  | .ok (some version) => .ok ("v" ++ toString version.toNat)
  | .error cause => .error (Snapshot.Fault.corrupt cause).toError

def inspect (path : String) (release : Option String) : FileTask Value := do
  let bytes ← FileTask.readExisting path
  let s ← FileTask.ofExcept (decode release bytes)
  let form ← FileTask.ofExcept (formName bytes)
  return .record [("type", .text "SNAPSHOT"),
    ("snapshot", .record
      [("path", .text path), ("format", .text form), ("partitions", stateValue s)])]

def migrate (input output : String) (release : Option String) : FileTask Value := do
  let bytes ← FileTask.readExisting input
  let s ← FileTask.ofExcept (decode release bytes)
  FileTask.inContext ("writing " ++ output) (FileTask.replace output (Snapshot.write s))
  return logReport ("Migrated " ++ toString s.size ++ " partitions from " ++ input ++ " to "
    ++ output ++ " (format v" ++ toString Snapshot.currentVersion.toNat ++ ")")

def partitionOf (word : String) : Except SourceError Partition :=
  match Partition.parse? word with
  | some p => .ok p
  | none =>
    .error (.invalidValue "partitions" ("expected topic:partition, got '" ++ word ++ "'"))

def assign (count index : UInt64) (words : List String) : Except SourceError Value := do
  let t ← Subtask.ofIndex index count
  let ps ← words.mapM partitionOf
  return .record [("type", .text "ASSIGNMENT"),
    ("assignment", .record
      [("subtask", .int index.toNat), ("num_subtasks", .int count.toNat),
        ("partitions", .array ((t.assign ps).map fun p => .record (partitionFields p)))])]

def latestValue (directory : String) : Option (UInt64 × Bytes) → FileTask Value
  | none => return .null
  | some (id, bytes) => do
    let note := "checkpoint " ++ toString id.toNat ++ " in " ++ directory
    let s ← FileTask.inContext note (FileTask.ofExcept (decode none bytes))
    return .record [("checkpoint_id", .int id.toNat), ("partitions", stateValue s)]

def snapshots (directory : String) : FileTask Value := do
  let store : SnapshotStore := ⟨directory⟩
  let ids ← store.list
  let latest ← latestValue directory (← store.latest)
  return .record [("type", .text "SNAPSHOTS"),
    ("snapshots", .record
      [("directory", .text directory),
        ("checkpoint_ids", .array (ids.map fun id => .int id.toNat)), ("latest", latest)])]

section

variable [Libraries]

def validate (path : String) : FileTask Value := do
  let c ← SourceConfig.ofFile path
  let discovery := match c.discoveryInterval? with
    | none => "disabled"
    | some ms => "every " ++ toString ms ++ "ms"
  return logReport ("Source config is valid (commit mode " ++ c.commitMode.name ++ ", discovery "
    ++ discovery ++ ")")

def Request.report : Request → FileTask Value
  | .inspect path release => Command.inspect path release
  | .migrate input output release => Command.migrate input output release
  | .assign count index words => FileTask.ofExcept (Command.assign count index words)
  | .snapshots directory => Command.snapshots directory
  | .validate path => Command.validate path

end

/-- The line, or the lines, that a report is printed as. -/
def OutputFormat.print (report : Value) : OutputFormat → String
  | json => report.render ++ "\n"
  | pretty => report.renderPretty 0 ++ "\n"

def Invocation.output [Libraries] (i : Invocation) : FileTask String := do
  return i.format.print (← i.request.report)

end CheckpointedLog.Command
