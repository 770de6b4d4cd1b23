import CheckpointedLog.Broker.Client
import CheckpointedLog.Config.Topics

namespace CheckpointedLog

/-- The topics of a broker and the partitions of all topics. -/
structure Metadata where
  topics : List String
  partitions : List Partition

namespace Metadata

variable [Libraries]

/-- The topics that a subscription asks for: those of a list, whether they are there or not, or those
that the pattern covers. -/
def Subscribed (m : Metadata) (topics : Topics) (topic : String) : Prop :=
  match topics with
  | .list names => topic ∈ names
  | .pattern _ => topic ∈ m.topics ∧ topics.covers topic = true

def Finds (m : Metadata) (topics : Topics) (p : Partition) : Prop :=
  m.Subscribed topics p.topic ∧ p ∈ m.partitions

end Metadata

/-- In the worlds `J`, from which no request for metadata leads away, every answer that is no failure
agrees with `m`. Partitions that were not asked for may be among the answers. -/
structure BrokerClient.Lists {ω : Type} (client : BrokerClient ω) (m : Metadata) (J : ω → Prop) :
    Prop where
  topics : ∀ {w w' names}, J w → client.listTopics w = (.ok names, w') →
    ∀ topic, topic ∈ names ↔ topic ∈ m.topics
  partitions : ∀ {asked w w' ps}, J w → client.listPartitions asked w = (.ok ps, w') →
    ∀ p, p.topic ∈ asked → (p ∈ ps ↔ p ∈ m.partitions)
  afterTopics : ∀ {w}, J w → J (client.listTopics w).2
  afterPartitions : ∀ {w} asked, J w → J (client.listPartitions asked w).2

end CheckpointedLog
