import CheckpointedLog.Broker.Memory

/-!
A broker in memory that others use too. What they do to it happens between the requests of the client,
so that records may be appended at any moment of a run, also between two polls of one round.
-/
namespace CheckpointedLog

inductive BrokerChange where
  | createTopic (topic : String) (count : Nat)
  | append (partition : Partition) (payloads : List Bytes)
  | failMetadata (e : SourceError)
  | failPoll (e : SourceError)
  | failCommit (e : SourceError)
deriving DecidableEq, Repr

def MemoryBroker.change (b : MemoryBroker) : BrokerChange → MemoryBroker
  | .createTopic topic count => b.createTopic topic count
  | .append p payloads => b.append p payloads
  | .failMetadata e => b.failMetadata e
  | .failPoll e => b.failPoll e
  | .failCommit e => b.failCommit e

/-- A broker and what others will do to it. -/
structure SharedBroker where
  broker : MemoryBroker
  /-- The changes before the next request, before the one after it, and so on. -/
  upcoming : List (List BrokerChange) := []

namespace SharedBroker

/-- Lets the changes happen that come before the next request. -/
def turn (w : SharedBroker) : SharedBroker :=
  match w.upcoming with
  | [] => w
  | changes :: upcoming => ⟨changes.foldl MemoryBroker.change w.broker, upcoming⟩

def answer {α : Type} (request : MemoryBroker → α × MemoryBroker) (w : SharedBroker) :
    α × SharedBroker :=
  let (a, b) := request w.turn.broker
  (a, { w.turn with broker := b })

def client : BrokerClient SharedBroker where
  listTopics := answer MemoryBroker.listTopics
  listPartitions topics := answer (MemoryBroker.listPartitions topics)
  resolve p o := answer (MemoryBroker.resolve p o)
  poll p position timeoutMs := answer (MemoryBroker.poll p position timeoutMs)
  commit positions := answer (MemoryBroker.commit positions)
  close := answer MemoryBroker.close

end SharedBroker

end CheckpointedLog
