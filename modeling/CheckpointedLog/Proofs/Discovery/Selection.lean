import CheckpointedLog.Broker.Scripted
import CheckpointedLog.Discovery.Answers
import CheckpointedLog.Pattern.Reader
import CheckpointedLog.Proofs.Broker.Memory
import CheckpointedLog.Proofs.Connector.Opening
import CheckpointedLog.Proofs.Except

namespace CheckpointedLog

variable {ω : Type} {client : BrokerClient ω} {topics : Topics} {d : BrokerDiscoverer} {w w' : ω}

namespace BrokerDiscoverer

theorem discover_ok {ps : List Partition} (h : d.discover client w = (.ok ps, w')) :
    ∃ names w₁ reported, d.subscribed client w = (.ok names, w₁) ∧
      client.Reports names w₁ reported w' ∧
      ps = Partition.ascending (reported.filter fun p => names.contains p.topic) := by
  unfold discover at h
  split at h
  · cases h
  split at h
  next => cases h
  next w₁ hnames =>
    cases h
    exact ⟨[], w', [], hnames, .unasked rfl, rfl⟩
  next names w₁ hsome hnames =>
    split at h
    next => cases h
    next reported w₂ hreported =>
      cases h
      exact ⟨names, w₁, reported, hnames, .answered hsome hreported, rfl⟩

theorem answers_of_subscribed [Libraries] (hd : d.Fits) {names : List String} {w₁ : ω} {reported : List Partition}
    (hnames : d.subscribed client w = (.ok names, w₁)) (hreported : client.Reports names w₁ reported w') :
    ∃ m, client.Answers d.topics w m w' ∧ m.partitions = reported ∧
      ∀ topic, topic ∈ names ↔ m.Subscribed d.topics topic := by
  unfold subscribed at hnames
  split at hnames
  next all _ htopics =>
    cases hnames
    rw [htopics]
    exact ⟨⟨names, reported⟩, .list hreported, rfl, fun _ => Iff.rfl⟩
  next text found htopics hfound =>
    have hcovers (topic : String) : (Topics.pattern text).covers topic = found topic := by
      rw [← htopics]
      exact covers_of_expression hd htopics hfound topic
    split at hnames
    next => cases hnames
    next listed w₁ hlisted =>
      cases hnames
      have hselected : listed.filter found = listed.filter (Topics.pattern text).covers := by
        apply List.filter_congr
        intro topic _
        exact (hcovers topic).symm
      rw [hselected] at hreported
      rw [htopics, hselected]
      exact ⟨⟨listed, reported⟩, .pattern hlisted hreported, rfl, fun _ => List.mem_filter⟩
  next => cases hnames

theorem exists_answers [Libraries] (hd : d.Fits) {ps : List Partition} (h : d.discover client w = (.ok ps, w')) :
    ps.Pairwise (fun p q => compare p q = .lt) ∧
      ∃ m, client.Answers d.topics w m w' ∧ ∀ p, p ∈ ps ↔ m.Finds d.topics p := by
  obtain ⟨names, w₁, reported, hnames, hreported, rfl⟩ := discover_ok h
  obtain ⟨m, hanswers, rfl, hsubscribed⟩ := answers_of_subscribed hd hnames hreported
  refine ⟨Partition.pairwise_ascending _, m, hanswers, fun p => ?_⟩
  rw [Partition.mem_ascending, List.mem_filter, List.contains_iff_mem, hsubscribed, and_comm]
  rfl

/-- A discoverer in memory answers as long as no failure is queued. -/
theorem Ready.exists_discover_memory (hd : d.Ready) {b : MemoryBroker}
    (hb : b.metadataFailures = []) : ∃ ps, d.discover MemoryBroker.client b = (.ok ps, b) := by
  have hlist (names : List String) :
      ∃ ps, MemoryBroker.client.listPartitions names b = (.ok ps, b) := by
    change ∃ ps, b.listPartitions names = (.ok ps, b)
    rw [MemoryBroker.listPartitions, hb]
    exact ⟨_, rfl⟩
  have hsubscribed : ∃ names, d.subscribed MemoryBroker.client b = (.ok names, b) := by
    unfold subscribed
    cases htopics : d.topics with
    | list names => exact ⟨names, rfl⟩
    | pattern text =>
      obtain ⟨r, hr⟩ := hd.expression text htopics
      have htopics : MemoryBroker.client.listTopics b = (.ok b.topics.keys, b) := by
        change b.listTopics = _
        rw [MemoryBroker.listTopics, hb]
      rw [hr]
      simp only [htopics]
      exact ⟨_, rfl⟩
  obtain ⟨names, hnames⟩ := hsubscribed
  obtain ⟨ps, hps⟩ := hlist names
  rw [discover, if_neg (not_not_intro hd.phase), hnames]
  cases names with
  | nil => exact ⟨[], rfl⟩
  | cons name names =>
    simp only [hps]
    exact ⟨_, rfl⟩

end BrokerDiscoverer

namespace MemoryBroker

/-- The partitions of a topic have the indices below their number, as long as these are indices. -/
theorem mem_partitionsOf_iff {b : MemoryBroker} {p : Partition}
    (hcount : (b.logsOf p.topic).length ≤ 2 ^ 31) :
    p ∈ b.partitionsOf p.topic ↔
      0 ≤ p.index.toInt ∧ p.index.toInt < (b.logsOf p.topic).length := by
  rw [partitionsOf, List.mem_map]
  constructor
  · rintro ⟨i, hi, hp⟩
    have hlt : i < (b.logsOf p.topic).length := List.mem_range.mp hi
    have hindex : p.index.toInt = i := by
      rw [← hp]
      exact Int32.toInt_ofNat_of_lt (by omega)
    omega
  · rintro ⟨hnonneg, hlt⟩
    obtain ⟨i, hi⟩ := Int.eq_ofNat_of_zero_le hnonneg
    have hlength : i < (b.logsOf p.topic).length := by omega
    refine ⟨i, List.mem_range.mpr hlength, ?_⟩
    have hindex : Int32.ofNat i = p.index := by
      apply Int32.toInt_inj.mp
      rw [Int32.toInt_ofNat_of_lt (by omega), hi]
    rw [hindex]

theorem mem_metadata_partitions_iff {b : MemoryBroker} {p : Partition} :
    p ∈ b.metadata.partitions ↔ p ∈ b.partitionsOf p.topic := by
  change p ∈ b.topics.keys.flatMap b.partitionsOf ↔ _
  rw [mem_flatMap_partitionsOf]
  exact ⟨And.right, fun h => ⟨mem_keys_of_mem_partitionsOf h, h⟩⟩

/-- What there is to find in memory: the partitions of the topics that exist and are covered. -/
theorem finds_metadata_iff [Libraries] {b : MemoryBroker} {topics : Topics} {p : Partition}
    (hcount : (b.logsOf p.topic).length ≤ 2 ^ 31) :
    b.metadata.Finds topics p ↔ b.topics.contains p.topic = true ∧ topics.covers p.topic = true ∧
      0 ≤ p.index.toInt ∧ p.index.toInt < (b.logsOf p.topic).length := by
  rw [Metadata.Finds, mem_metadata_partitions_iff, ← mem_partitionsOf_iff hcount,
    ← SortedMap.mem_keys_iff]
  cases topics with
  | list names =>
    have hcovers : (Topics.list names).covers p.topic = true ↔ p.topic ∈ names :=
      List.contains_iff_mem
    rw [hcovers]
    constructor
    · rintro ⟨hname, hp⟩
      exact ⟨mem_keys_of_mem_partitionsOf hp, hname, hp⟩
    · exact And.right
  | pattern text => exact and_assoc

end MemoryBroker

namespace BrokerDiscoverer

/-- Whatever a client lists, in any order, repeatedly and unasked: once a discoverer was opened, a
discovery that succeeds gives in strictly ascending order exactly the partitions that the client reported
of subscribed topics, which are those of the list or those among the listed topics that the compiled
pattern finds. The subscription covers all of them, so that no restored offset of theirs is dropped. A
broker in memory answers unless a failure is queued, and what is found there are all partitions of the
covered topics that exist. -/
theorem discover_finds_subscribed [Libraries] (hstart : start { topics := topics } = (.ok (), d))
    (marked : SortedMap Partition Unit) :
    let d : BrokerDiscoverer := { d with marked := marked }
    (∀ found, d.expression = some found →
      topics.compilePattern = .ok found ∧ ∀ topic, topics.covers topic = found topic) ∧
    (∀ {ω : Type} (client : BrokerClient ω) (w w' : ω) (ps : List Partition),
      d.discover client w = (.ok ps, w') →
        ps.Pairwise (fun p q => compare p q = .lt) ∧
        (∃ m, client.Answers topics w m w' ∧ ∀ p, p ∈ ps ↔ m.Finds topics p) ∧
        ∀ p ∈ ps, topics.covers p.topic = true ∧
          ∀ config : SourceConfig, config.topics = topics →
            Connector.keepsTopic config p.topic = true) ∧
    ∀ b : MemoryBroker, (∀ topic, (b.logsOf topic).length ≤ 2 ^ 31) →
      (b.metadataFailures = [] → ∃ ps, d.discover MemoryBroker.client b = (.ok ps, b)) ∧
      ∀ ps b', d.discover MemoryBroker.client b = (.ok ps, b') → ∀ p, p ∈ ps ↔
        b.topics.contains p.topic = true ∧ topics.covers p.topic = true ∧
          0 ≤ p.index.toInt ∧ p.index.toInt < (b.logsOf p.topic).length := by
  intro d'
  have hfits : d.topics = topics ∧ d.Fits := start_fits (fun r hr => by cases hr) hstart
  obtain ⟨htopics, hfits⟩ := hfits
  have hfits' : d'.Fits := hfits
  refine ⟨fun found hfound => ?_, fun client w w' ps h => ?_, fun b hcount => ⟨fun hb => ?_, ?_⟩⟩
  · have hcompiled : topics.compilePattern = .ok found := htopics ▸ hfits found hfound
    refine ⟨hcompiled, fun topic => ?_⟩
    cases topics with
    | list names => cases hcompiled
    | pattern text => exact htopics ▸ covers_of_expression hfits htopics hfound topic
  · obtain ⟨hascending, m, hanswers, hfinds⟩ := exists_answers hfits' h
    change client.Answers d.topics w m w' at hanswers
    change ∀ p, p ∈ ps ↔ m.Finds d.topics p at hfinds
    rw [htopics] at hanswers hfinds
    refine ⟨hascending, ⟨m, hanswers, hfinds⟩, fun p hp => ?_⟩
    have hcovered : topics.covers p.topic = true := htopics ▸ discover_covered hfits' h hp
    refine ⟨hcovered, fun config hconfig => ?_⟩
    apply Connector.keepsTopic_iff.mpr
    rw [hconfig]
    exact Or.inr hcovered
  · have hready : d'.Ready := ⟨(ready_of_start hstart).phase, (ready_of_start hstart).expression⟩
    exact hready.exists_discover_memory hb
  · intro ps b' h p
    have hfinds := mem_discover_iff b.client_lists hfits' rfl h p
    change p ∈ ps ↔ b.metadata.Finds d.topics p at hfinds
    rw [htopics, MemoryBroker.finds_metadata_iff (hcount p.topic)] at hfinds
    exact hfinds

end BrokerDiscoverer

end CheckpointedLog

namespace CheckpointedLog.BrokerDiscoverer

open scoped Pattern

/-- A client lists topics out of order, and partitions twice and of a topic that nobody asked for. -/
theorem discover_finds_subscribed_unordered :
    let topics : Topics := .pattern "a|b"
    let d : BrokerDiscoverer := (start { topics := topics }).2
    let w : ScriptedBroker :=
      { topics := ["b", "ab", "a"]
        partitions := [⟨"b", 1⟩, ⟨"ab", 0⟩, ⟨"a", 0⟩, ⟨"c", 2⟩, ⟨"b", 1⟩] }
    let w' := (d.discover ScriptedBroker.client w).2
    start { topics := topics } = (.ok (), d) ∧
      d.discover ScriptedBroker.client w = (.ok [⟨"a", 0⟩, ⟨"b", 1⟩], w') ∧
      (∃ m, ScriptedBroker.client.Answers topics w m w' ∧
        ∀ p, p ∈ [⟨"a", 0⟩, (⟨"b", 1⟩ : Partition)] ↔ m.Finds topics p) ∧
      topics.covers "b" = true := by
  intro topics d w w'
  have hstart : start { topics := topics } = (.ok (), d) := by
    apply Prod.ext _ rfl
    apply eq_ok_of_toOption
    decide +kernel
  have hdiscover : d.discover ScriptedBroker.client w = (.ok [⟨"a", 0⟩, ⟨"b", 1⟩], w') := by
    apply Prod.ext _ rfl
    apply eq_ok_of_toOption
    decide +kernel
  obtain ⟨-, hfound, -⟩ := discover_finds_subscribed hstart d.marked
  obtain ⟨-, hanswers, hcovered⟩ := hfound ScriptedBroker.client w w' _ hdiscover
  exact ⟨hstart, hdiscover, hanswers, (hcovered ⟨"b", 1⟩ (by decide)).1⟩

end CheckpointedLog.BrokerDiscoverer
