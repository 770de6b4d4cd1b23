import CheckpointedLog.SourceError
import CheckpointedLog.Text.Units

namespace CheckpointedLog

namespace Assignment

/-- `u₁ * 31 ^ (n - 1) + … + uₙ` over the 16-bit units of the topic, in 32-bit arithmetic. -/
def topicHash (topic : String) : Int32 :=
  (Text.units16 topic).foldl (fun h u => h * 31 + Int32.ofNat u.toNat) 0

/-- The non-negative remainder of `a` by `n`, for `n` other than 0. -/
def remainder (a n : Int64) : Int64 :=
  let r := a % n
  if 0 ≤ r then r else if 0 ≤ n then r + n else r - n

/-- The subtask at which the dealing of a topic starts, before it is reduced by the number of
subtasks: 31 times the hash, without its sign. -/
def topicStart (topic : String) : Int64 := (topicHash topic * 31 &&& 0x7FFFFFFF).toInt64

/-- The owner of a partition among `count` subtasks. The count is read as a signed number. -/
def ownerOf (p : Partition) (count : UInt64) : UInt64 :=
  let n := (if count = 0 then 1 else count).toInt64
  (remainder (topicStart p.topic % n + p.index.toInt64) n).toUInt64

end Assignment

/-- One of `count` parallel subtasks. -/
structure Subtask where
  index : UInt64
  count : UInt64
  index_lt : index < count

namespace Subtask

def single : Subtask := ⟨0, 1, by decide⟩

instance : Inhabited Subtask := ⟨single⟩

/-- Subtask `index` of `count`, if there is one. -/
def ofIndex (index count : UInt64) : Except SourceError Subtask :=
  if count = 0 then .error (.invalidValue "num_subtasks" "must be greater than zero")
  else if h : index < count then .ok ⟨index, count, h⟩
  else .error (.invalidValue "subtask_index"
    ("index " ++ toString index.toNat ++ " out of range for " ++ toString count.toNat
      ++ " subtasks"))

def owns (t : Subtask) (p : Partition) : Bool := Assignment.ownerOf p t.count == t.index

/-- The given partitions that the subtask owns, each once and in ascending order. -/
def assign (t : Subtask) (ps : List Partition) : List Partition :=
  Partition.ascending (ps.filter t.owns)

end Subtask

end CheckpointedLog
