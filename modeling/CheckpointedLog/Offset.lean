/-!
Offsets and positions. An offset names the last record of a partition that was delivered, or stands
for a place that the broker finds out when the partition is first read. A position names the next
record to read; it is one past the last offset.
-/
namespace CheckpointedLog

inductive Offset where
  /-- The record at this offset was the last one delivered. -/
  | concrete (last : Int64)
  /-- Start at the oldest record that is still kept. -/
  | earliest
  /-- Start after the newest record. -/
  | latest
  /-- Start where the consumer group committed. -/
  | groupCommitted
deriving DecidableEq, Inhabited, Repr

namespace Offset

def earliestRaw : Int64 := -915623761775

def latestRaw : Int64 := -915623761774

def groupCommittedRaw : Int64 := -915623761773

def isSentinel : Offset → Bool
  | concrete _ => false
  | _ => true

/-- The offset of the last delivered record, once there is one. -/
def concrete? : Offset → Option Int64
  | concrete last => some last
  | _ => none

/-- Whether the offset may be moved to `last`: a greater concrete offset may not. -/
def admits (last : Int64) : Offset → Bool
  | concrete current => current ≤ last
  | _ => true

def toRaw : Offset → Int64
  | concrete last => last
  | earliest => earliestRaw
  | latest => latestRaw
  | groupCommitted => groupCommittedRaw

/-- Reads a stored number. Below `-1`, which says that nothing was delivered from a partition that
starts at position 0, only the three reserved numbers have a meaning. -/
def ofRaw? (raw : Int64) : Option Offset :=
  if raw = earliestRaw then some earliest
  else if raw = latestRaw then some latest
  else if raw = groupCommittedRaw then some groupCommitted
  else if -1 ≤ raw then some (concrete raw)
  else none

/-- The number of a concrete offset, or the name of the place. -/
def display : Offset → String
  | concrete last => toString last.toInt
  | earliest => "EARLIEST"
  | latest => "LATEST"
  | groupCommitted => "GROUP_OFFSET"

end Offset

/-- The offset of the next record to read. -/
abbrev Position := Int64

namespace Position

/-- The position after the record at `last`; there is none after the greatest offset. -/
def after? (last : Int64) : Option Position :=
  if last = Int64.maxValue then none else some (last + 1)

/-- The position after the record at `last`, or the greatest one. -/
def afterCapped (last : Int64) : Position :=
  if last = Int64.maxValue then last else last + 1

/-- The offset of the record before a position, or the least one. -/
def beforeCapped (position : Position) : Int64 :=
  if position = Int64.minValue then position else position - 1

end Position

end CheckpointedLog
