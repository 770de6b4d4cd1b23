import CheckpointedLog.Broker.Metadata

namespace CheckpointedLog

variable {ω : Type}

/-- The partitions that a client reports for some topics. Without topics it is not asked. -/
inductive BrokerClient.Reports (client : BrokerClient ω) (names : List String) (w : ω) :
    List Partition → ω → Prop where
  | unasked (none : names = []) : Reports client names w [] w
  | answered {ps : List Partition} {w' : ω} (some : names ≠ [])
      (answer : client.listPartitions names w = (.ok ps, w')) : Reports client names w ps w'

/-- The topics and partitions that a client reports to a subscription. Only for a pattern it is asked
for topics. -/
inductive BrokerClient.Answers [Libraries] (client : BrokerClient ω) : Topics → ω → Metadata → ω → Prop where
  | list {names : List String} {w w' : ω} {ps : List Partition}
      (partitions : client.Reports names w ps w') : Answers client (.list names) w ⟨names, ps⟩ w'
  | pattern {text : String} {w w₁ w' : ω} {listed : List String} {ps : List Partition}
      (topics : client.listTopics w = (.ok listed, w₁))
      (partitions : client.Reports (listed.filter (Topics.pattern text).covers) w₁ ps w') :
      Answers client (.pattern text) w ⟨listed, ps⟩ w'

end CheckpointedLog
