import CheckpointedLog.Files.FileProgram
import CheckpointedLog.Text.Digits

namespace CheckpointedLog

/-- A directory of files named `snapshot-ID.bin`. -/
structure SnapshotStore where
  directory : String
deriving DecidableEq, Repr

namespace SnapshotStore

def fileName (id : UInt64) : String := "snapshot-" ++ toString id.toNat ++ ".bin"

def idOf? (name : String) : Option UInt64 :=
  let cs := name.toList
  if "snapshot-".toList.isPrefixOf cs then
    let rest := cs.drop "snapshot-".length
    if ".bin".toList.isSuffixOf rest then
      Decimal.uint64? (rest.take (rest.length - ".bin".length))
    else none
  else none

def pathOf (s : SnapshotStore) (id : UInt64) : String := Path.join s.directory (fileName id)

def save (s : SnapshotStore) (id : UInt64) (bytes : Bytes) : FileTask String := do
  FileTask.makeDirectories s.directory
  FileTask.replace (s.pathOf id) bytes
  return s.pathOf id

def load (s : SnapshotStore) (id : UInt64) : FileTask Bytes := FileTask.readExisting (s.pathOf id)

/-- The checkpoints whose files are in the directory, in ascending order. -/
def list (s : SnapshotStore) : FileTask (List UInt64) := do
  if (← FileTask.kind s.directory).isNone then return []
  let names ← FileTask.list s.directory
  return (names.filterMap idOf?).mergeSort fun a b => a ≤ b

/-- The last checkpoint that has a file, with its snapshot. -/
def latest (s : SnapshotStore) : FileTask (Option (UInt64 × Bytes)) := do
  match (← s.list).getLast? with
  | none => return none
  | some id => return some (id, ← s.load id)

end SnapshotStore

end CheckpointedLog
