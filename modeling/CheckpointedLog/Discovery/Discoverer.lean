import CheckpointedLog.Broker.Client
import CheckpointedLog.Config.Topics

namespace CheckpointedLog

/-- A way to find partitions, with a state of type `δ` in a world of type `ω`. -/
structure Discoverer (δ ω : Type) where
  /-- A discoverer that is not open yet. -/
  create : Topics → δ
  start : δ → ω → Except SourceError Unit × δ × ω
  /-- The partitions of the subscribed topics. -/
  discover : δ → ω → Except SourceError (List Partition) × δ × ω
  /-- Marks a partition; also tells whether it was not marked before. -/
  mark : Partition → δ → ω → Bool × δ × ω
  close : δ → ω → Except SourceError Unit × δ × ω

namespace Discoverer

variable {δ ω : Type}

/-- Marks partitions one after the other; also gives those that were not marked before. -/
def markAll (d : Discoverer δ ω) : List Partition → δ → ω → List Partition × δ × ω
  | [], s, w => ([], s, w)
  | p :: ps, s, w =>
    let (isNew, s, w) := d.mark p s w
    let (others, s, w) := d.markAll ps s w
    (if isNew then p :: others else others, s, w)

end Discoverer

inductive DiscovererPhase where
  | uninitialized
  | opened
  | closed
deriving DecidableEq, Repr

def DiscovererPhase.name : DiscovererPhase → String
  | uninitialized => "uninitialized"
  | opened => "open"
  | closed => "closed"

structure BrokerDiscoverer where
  topics : Topics
  phase : DiscovererPhase := .uninitialized
  /-- In which names the pattern is found, once the discoverer was opened. -/
  expression : Option (String → Bool) := none
  marked : SortedMap Partition Unit := .empty

namespace BrokerDiscoverer

variable {ω : Type}

def start [Libraries] (d : BrokerDiscoverer) : Except SourceError Unit × BrokerDiscoverer :=
  match d.phase with
  | .closed => (.error (.invalidState "open discoverer" d.phase.name), d)
  | .opened => (.ok (), d)
  | .uninitialized =>
    match d.topics with
    | .list _ => (.ok (), { d with phase := .opened })
    | .pattern _ =>
      match d.topics.compilePattern with
      | .error e => (.error e, d)
      | .ok found => (.ok (), { d with phase := .opened, expression := some found })

/-- The subscribed topics: those of the list, or those of the broker that match the pattern. -/
def subscribed (client : BrokerClient ω) (d : BrokerDiscoverer) (w : ω) :
    Except SourceError (List String) × ω :=
  match d.topics, d.expression with
  | .list names, _ => (.ok names, w)
  | .pattern _, some found =>
    match client.listTopics w with
    | (.error e, w) => (.error (.discovery ("failed to list topics: " ++ e.message)), w)
    | (.ok names, w) => (.ok (names.filter found), w)
  | .pattern text, none =>
    (.error (.config ("topic pattern '" ++ text ++ "' was not compiled")), w)

/-- The partitions of the subscribed topics, each once and in ascending order. -/
def discover (client : BrokerClient ω) (d : BrokerDiscoverer) (w : ω) :
    Except SourceError (List Partition) × ω :=
  if d.phase ≠ .opened then (.error (.invalidState "discover partitions" d.phase.name), w)
  else match d.subscribed client w with
    | (.error e, w) => (.error e, w)
    -- Without subscribed topics the broker is not asked for partitions.
    | (.ok [], w) => (.ok [], w)
    | (.ok names, w) =>
      match client.listPartitions names w with
      | (.error e, w) => (.error (.discovery ("failed to list partitions: " ++ e.message)), w)
      | (.ok ps, w) => (.ok (Partition.ascending (ps.filter fun p => names.contains p.topic)), w)

def mark (p : Partition) (d : BrokerDiscoverer) : Bool × BrokerDiscoverer :=
  (!d.marked.contains p, { d with marked := d.marked.insert p () })

def close (d : BrokerDiscoverer) : BrokerDiscoverer := { d with phase := .closed }

def discoverer [Libraries] (client : BrokerClient ω) : Discoverer BrokerDiscoverer ω where
  create topics := { topics := topics }
  start d w := let (r, d) := d.start; (r, d, w)
  discover d w := let (r, w) := d.discover client w; (r, d, w)
  mark p d w := let (isNew, d) := d.mark p; (isNew, d, w)
  close d w := (.ok (), d.close, w)

end BrokerDiscoverer

end CheckpointedLog
