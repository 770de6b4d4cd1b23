import CheckpointedLog.OffsetState

namespace CheckpointedLog

/-- The last offsets of the waiting snapshots, by checkpoint id. -/
abbrev PendingCheckpoints := SortedMap UInt64 OffsetMap

namespace PendingCheckpoints

def limit : Nat := 100

def evict (entries : PendingCheckpoints) : PendingCheckpoints :=
  ⟨entries.entries.drop (entries.size - limit),
    entries.ascending.sublist (List.drop_sublist _ _)⟩

/-- Remembers the offsets of a snapshot, in place of earlier ones of the same id. -/
def remember (pending : PendingCheckpoints) (id : UInt64) (offsets : OffsetMap) :
    PendingCheckpoints :=
  evict (pending.insert id offsets)

/-- Takes out the offsets of a completed checkpoint and drops those of older ones. -/
def complete (pending : PendingCheckpoints) (id : UInt64) :
    Option OffsetMap × PendingCheckpoints :=
  match pending.get? id with
  | none => (none, pending)
  | some offsets => (some offsets, pending.filter fun other _ => id < other)

def ids (pending : PendingCheckpoints) : List UInt64 := pending.keys

end PendingCheckpoints

end CheckpointedLog
