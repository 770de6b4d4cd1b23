import CheckpointedLog.Offset
import CheckpointedLog.Partition
import CheckpointedLog.SortedMap

namespace CheckpointedLog

/-- A number for each of some partitions: last offsets, or positions. -/
abbrev OffsetMap := SortedMap Partition Int64

/-- The tracked partitions, each with how far it was delivered. -/
abbrev OffsetState := SortedMap Partition Offset

namespace OffsetState

def partitions (s : OffsetState) : List Partition := s.keys

/-- Tracks a partition at an offset unless it is tracked; also says whether it was added. -/
def addIfAbsent (s : OffsetState) (p : Partition) (o : Offset) : Bool × OffsetState :=
  if s.contains p then (false, s) else (true, s.insert p o)

/-- Moves a tracked partition to a concrete offset; also says whether it was moved. An untracked
partition stays untracked and a greater concrete offset stays. -/
def advance (s : OffsetState) (p : Partition) (last : Int64) : Bool × OffsetState :=
  match s.get? p with
  | none => (false, s)
  | some o => if o.admits last then (true, s.insert p (.concrete last)) else (false, s)

def concreteOffsets (s : OffsetState) : OffsetMap := s.filterMap fun _ o => o.concrete?

/-- Tracks the given partitions at an offset, leaving the tracked ones alone; also gives those that
were added, in the given order. -/
def addPartitions (s : OffsetState) (o : Offset) : List Partition → List Partition × OffsetState
  | [] => ([], s)
  | p :: ps =>
    let (added, s) := s.addIfAbsent p o
    let (others, s) := addPartitions s o ps
    (if added then p :: others else others, s)

end OffsetState

end CheckpointedLog
