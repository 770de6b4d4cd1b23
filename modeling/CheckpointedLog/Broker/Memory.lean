import CheckpointedLog.Broker.Client

namespace CheckpointedLog

structure MemoryBroker where
  /-- The payloads of each partition of each topic. -/
  topics : SortedMap String (List (List Bytes)) := .empty
  /-- The positions of the consumer group. -/
  committed : OffsetMap := .empty
  metadataFailures : List SourceError := []
  pollFailures : List SourceError := []
  commitFailures : List SourceError := []
  pollCount : Nat := 0
  commitCount : Nat := 0
  isClosed : Bool := false
  /-- The greatest number of records in one answer. -/
  maxBatch : Nat := 100

namespace MemoryBroker

/-- A broker without topics. A batch has at least one record. -/
def ofMaxBatch (n : Nat) : MemoryBroker := { maxBatch := max n 1 }

def logsOf (b : MemoryBroker) (topic : String) : List (List Bytes) :=
  (b.topics.get? topic).getD []

def log? (b : MemoryBroker) (p : Partition) : Option (List Bytes) :=
  if p.index < 0 then none
  else (b.topics.get? p.topic).bind fun logs => logs[p.index.toInt.toNat]?

/-- Adds empty partitions until there are `count`. -/
def grow (count : Nat) (logs : List (List Bytes)) : List (List Bytes) :=
  logs ++ List.replicate (count - logs.length) []

/-- Creates a topic, or lets it grow to some number of partitions. -/
def createTopic (b : MemoryBroker) (topic : String) (count : Nat) : MemoryBroker :=
  { b with topics := b.topics.insert topic (grow count (b.logsOf topic)) }

/-- Appends records to a partition, which is created if it is missing. A negative index stands
for 0. -/
def append (b : MemoryBroker) (p : Partition) (payloads : List Bytes) : MemoryBroker :=
  let index := p.index.toInt.toNat
  let logs := grow (index + 1) (b.logsOf p.topic)
  { b with topics := b.topics.insert p.topic (logs.modify index (· ++ payloads)) }

def failMetadata (b : MemoryBroker) (e : SourceError) : MemoryBroker :=
  { b with metadataFailures := b.metadataFailures ++ [e] }

def failPoll (b : MemoryBroker) (e : SourceError) : MemoryBroker :=
  { b with pollFailures := b.pollFailures ++ [e] }

def failCommit (b : MemoryBroker) (e : SourceError) : MemoryBroker :=
  { b with commitFailures := b.commitFailures ++ [e] }

def setCommitted (b : MemoryBroker) (p : Partition) (position : Position) : MemoryBroker :=
  { b with committed := b.committed.insert p position }

def listTopics (b : MemoryBroker) : Except SourceError (List String) × MemoryBroker :=
  match b.metadataFailures with
  | e :: rest => (.error e, { b with metadataFailures := rest })
  | [] => (.ok b.topics.keys, b)

/-- The partitions of the given topics, in the order in which they are given. -/
def listPartitions (topics : List String) (b : MemoryBroker) :
    Except SourceError (List Partition) × MemoryBroker :=
  match b.metadataFailures with
  | e :: rest => (.error e, { b with metadataFailures := rest })
  | [] =>
    (.ok (topics.flatMap fun topic =>
      (List.range (b.logsOf topic).length).map fun i => ⟨topic, Int32.ofNat i⟩), b)

/-- The first record to read: at the beginning, after the end, where the group committed, or after a
given offset. -/
def resolve (p : Partition) (o : Offset) (b : MemoryBroker) :
    Except SourceError Position × MemoryBroker :=
  match b.log? p with
  | none => (.error (.poll p (-1) "unknown partition"), b)
  | some log =>
    match o with
    | .earliest => (.ok 0, b)
    | .latest => (.ok (Int64.ofNat log.length), b)
    | .groupCommitted => (.ok ((b.committed.get? p).getD 0), b)
    | .concrete last => (.ok (last + 1), b)

/-- The records with their offsets, of which the first is `start`. -/
def numbered (p : Partition) (start : Nat) (payloads : List Bytes) : List Record :=
  (payloads.zipIdx start).map fun (payload, i) => ⟨p, Int64.ofNat i, payload⟩

/-- The next records from a position on. If there are none, the broker waits for the whole time. -/
def poll (p : Partition) (position : Position) (timeoutMs : Nat) (b : MemoryBroker) :
    PollReply × MemoryBroker :=
  let b := { b with pollCount := b.pollCount + 1 }
  match b.pollFailures with
  | e :: rest => ({ records := .error e }, { b with pollFailures := rest })
  | [] =>
    match b.log? p with
    | none => ({ records := .error (.poll p position "unknown partition") }, b)
    | some log =>
      let start := position.toInt.toNat
      let records := numbered p start ((log.drop start).take b.maxBatch)
      ({ records := .ok records, waitMs := if records.isEmpty then timeoutMs else 0 }, b)

def commit (positions : OffsetMap) (b : MemoryBroker) : Except SourceError Unit × MemoryBroker :=
  match b.commitFailures with
  | e :: rest => (.error e, { b with commitFailures := rest })
  | [] =>
    (.ok (), { b with
      committed := b.committed.union positions
      commitCount := b.commitCount + 1 })

def close (b : MemoryBroker) : Except SourceError Unit × MemoryBroker :=
  (.ok (), { b with isClosed := true })

def client : BrokerClient MemoryBroker where
  listTopics := listTopics
  listPartitions := listPartitions
  resolve := resolve
  poll := poll
  commit := commit
  close := close

end MemoryBroker

end CheckpointedLog
