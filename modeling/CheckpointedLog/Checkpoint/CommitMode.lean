namespace CheckpointedLog

inductive CommitMode where
  | disabled
  /-- The offsets of a snapshot are committed when its checkpoint completes. -/
  | onCheckpoints
  /-- The broker client commits on a timer of its own. -/
  | periodic
deriving DecidableEq, Repr

namespace CommitMode

def ofFlags (checkpointing autoCommit : Bool) : CommitMode :=
  if checkpointing then onCheckpoints else if autoCommit then periodic else disabled

def name : CommitMode → String
  | disabled => "disabled"
  | onCheckpoints => "on_checkpoints"
  | periodic => "kafka_periodic"

end CommitMode

end CheckpointedLog
