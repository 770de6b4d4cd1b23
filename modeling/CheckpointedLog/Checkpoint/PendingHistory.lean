import CheckpointedLog.Checkpoint.Pending
import Mathlib.Data.List.DropRight

namespace CheckpointedLog

/-- Something that is done with the waiting snapshots. -/
inductive PendingAction where
  | remember (id : UInt64) (offsets : OffsetMap)
  | complete (id : UInt64)

structure PendingHistory where
  pending : PendingCheckpoints := .empty
  /-- All snapshots, in the order in which they were remembered. -/
  remembered : List (UInt64 × OffsetMap) := []
  /-- The checkpoints whose completion gave offsets. -/
  completed : List UInt64 := []

namespace PendingHistory

def perform (h : PendingHistory) : PendingAction → PendingHistory
  | .remember id offsets =>
    { h with
      pending := h.pending.remember id offsets
      remembered := h.remembered ++ [(id, offsets)] }
  | .complete id =>
    let (found, pending) := h.pending.complete id
    { h with
      pending := pending
      completed := if found.isSome then h.completed ++ [id] else h.completed }

def performAll (h : PendingHistory) (actions : List PendingAction) : PendingHistory :=
  actions.foldl perform h

def rememberedIds (h : PendingHistory) : List UInt64 := h.remembered.map (·.1)

/-- The offsets that were remembered last under an id. -/
def latest? (h : PendingHistory) (id : UInt64) : Option OffsetMap :=
  h.remembered.reverse.lookup id

/-- Whether an id is greater than those of all completed checkpoints. -/
def outlasts (h : PendingHistory) (id : UInt64) : Bool := h.completed.all (· < id)

/-- Of the last ids, as many as may wait, those that outlast the completed checkpoints. -/
def awaited (h : PendingHistory) : List UInt64 :=
  (h.rememberedIds.rtake PendingCheckpoints.limit).filter h.outlasts

end PendingHistory

end CheckpointedLog
