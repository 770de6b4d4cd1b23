import CheckpointedLog.OffsetState
import CheckpointedLog.SourceError
import CheckpointedLog.Text.Utf8

/-!
What a source asks of the broker that keeps the log. A client is given by what each request answers and
what it does to the state of the world behind the client; nothing else is assumed of it.
-/
namespace CheckpointedLog

structure Record where
  /-- The partition that the record says it is from. -/
  partition : Partition
  offset : Int64
  payload : Bytes
deriving DecidableEq, Repr, Inhabited

structure PollReply where
  records : Except SourceError (List Record)
  /-- The milliseconds until the answer is there. -/
  waitMs : Nat := 0

/-- A client of a broker in a world of type `ω`. -/
structure BrokerClient (ω : Type) where
  listTopics : ω → Except SourceError (List String) × ω
  /-- The partitions of the given topics. -/
  listPartitions : List String → ω → Except SourceError (List Partition) × ω
  /-- The position of the first record to read at a place that an offset stands for. -/
  resolve : Partition → Offset → ω → Except SourceError Position × ω
  /-- Records from a position on; the broker may wait some milliseconds for them. -/
  poll : Partition → Position → Nat → ω → PollReply × ω
  /-- Remembers positions for the consumer group. -/
  commit : OffsetMap → ω → Except SourceError Unit × ω
  close : ω → Except SourceError Unit × ω

/-- The client in a world that has one more part. -/
def BrokerClient.besides {ω : Type} (c : BrokerClient ω) (α : Type) : BrokerClient (ω × α) where
  listTopics w := let (r, v) := c.listTopics w.1; (r, v, w.2)
  listPartitions topics w := let (r, v) := c.listPartitions topics w.1; (r, v, w.2)
  resolve p o w := let (r, v) := c.resolve p o w.1; (r, v, w.2)
  poll p position timeoutMs w := let (r, v) := c.poll p position timeoutMs w.1; (r, v, w.2)
  commit positions w := let (r, v) := c.commit positions w.1; (r, v, w.2)
  close w := let (r, v) := c.close w.1; (r, v, w.2)

end CheckpointedLog
