import CheckpointedLog.SourceError

namespace CheckpointedLog

inductive Phase where
  /-- A state may be restored. -/
  | created
  /-- Partitions are assigned. -/
  | opened
  /-- Records are fetched. -/
  | running
  /-- Offsets are copied for a snapshot while records are fetched. -/
  | snapshotting
  /-- It was asked to stop. -/
  | cancelling
  /-- Everything is released. -/
  | closed
deriving DecidableEq, Repr

namespace Phase

def name : Phase → String
  | created => "created"
  | opened => "opened"
  | running => "running"
  | snapshotting => "snapshotting"
  | cancelling => "cancelling"
  | closed => "closed"

/-- The place of a phase in the order. A connector goes back and forth only between fetching and
fetching with a snapshot under way. -/
def rank : Phase → Nat
  | created => 0
  | opened => 1
  | running | snapshotting => 2
  | cancelling => 3
  | closed => 4

def isStopping : Phase → Bool
  | cancelling | closed => true
  | _ => false

def refusal (operation : String) (p : Phase) : SourceError := .invalidState operation p.name

def stop (p : Phase) : Phase := if p.isStopping then p else cancelling

/-- Goes from one phase to another; any other phase stays. -/
def shift (p source target : Phase) : Phase := if p = source then target else p

end Phase

end CheckpointedLog
