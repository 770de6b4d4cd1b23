import CheckpointedLog.Broker.Client

namespace CheckpointedLog

/-- A request that is recorded. Requests for metadata are not. -/
inductive ClientCall where
  | resolve (partition : Partition) (offset : Offset)
  | poll (partition : Partition) (position : Position)
  | commit (positions : OffsetMap)
  | close
deriving DecidableEq

/-- The answers that are still to be given, and the requests so far. -/
structure ScriptedBroker where
  topics : List String := []
  partitions : List Partition := []
  /-- The answers for each partition; after them the position is 0. -/
  resolutions : List (Partition × List (Except SourceError Position)) := []
  /-- The answers for each partition; after them there are no records and the client waits. -/
  polls : List (Partition × List (Except SourceError (List Record))) := []
  /-- The failures of the next commits. -/
  commitFailures : List SourceError := []
  /-- The failure of every attempt to close. -/
  closeFailure : Option SourceError := none
  calls : List ClientCall := []

namespace ScriptedBroker

def takeNext {α : Type} (p : Partition) :
    List (Partition × List α) → Option (α × List (Partition × List α))
  | [] => none
  | (q, queue) :: rest =>
    if q = p then
      match queue with
      | [] => none
      | a :: queue => some (a, (q, queue) :: rest)
    else (takeNext p rest).map fun (a, rest) => (a, (q, queue) :: rest)

def note (b : ScriptedBroker) (call : ClientCall) : ScriptedBroker :=
  { b with calls := b.calls ++ [call] }

def resolve (p : Partition) (o : Offset) (b : ScriptedBroker) :
    Except SourceError Position × ScriptedBroker :=
  let b := b.note (.resolve p o)
  match takeNext p b.resolutions with
  | none => (.ok 0, b)
  | some (r, rest) => (r, { b with resolutions := rest })

def poll (p : Partition) (position : Position) (timeoutMs : Nat) (b : ScriptedBroker) :
    PollReply × ScriptedBroker :=
  let b := b.note (.poll p position)
  match takeNext p b.polls with
  | none => ({ records := .ok [], waitMs := timeoutMs }, b)
  | some (r, rest) => ({ records := r }, { b with polls := rest })

def commit (positions : OffsetMap) (b : ScriptedBroker) :
    Except SourceError Unit × ScriptedBroker :=
  let b := b.note (.commit positions)
  match b.commitFailures with
  | [] => (.ok (), b)
  | e :: rest => (.error e, { b with commitFailures := rest })

def close (b : ScriptedBroker) : Except SourceError Unit × ScriptedBroker :=
  let b := b.note .close
  (b.closeFailure.elim (.ok ()) .error, b)

def client : BrokerClient ScriptedBroker where
  listTopics b := (.ok b.topics, b)
  listPartitions _ b := (.ok b.partitions, b)
  resolve := resolve
  poll := poll
  commit := commit
  close := close

end ScriptedBroker

end CheckpointedLog
