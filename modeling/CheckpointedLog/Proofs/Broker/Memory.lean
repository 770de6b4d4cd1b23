import Mathlib.Algebra.Group.Nat.Defs
import CheckpointedLog.Broker.Metadata
import CheckpointedLog.Broker.Shared
import CheckpointedLog.Proofs.OffsetState

namespace CheckpointedLog

/-- Records of a partition that stand one after the other in its log, from the place `start` on. -/
inductive Stretch (log : List Bytes) (p : Partition) : (start : Nat) → List Record → Prop where
  | nil (start : Nat) : Stretch log p start []
  | cons {start : Nat} {r : Record} {rest : List Record} (partition : r.partition = p)
      (offset : r.offset.toInt = start) (payload : log[start]? = some r.payload)
      (tail : Stretch log p (start + 1) rest) : Stretch log p start (r :: rest)

namespace Stretch

variable {log log' : List Bytes} {p : Partition} {start : Nat} {records : List Record}

theorem mono (h : Stretch log p start records) (hlog : log <+: log') :
    Stretch log' p start records := by
  induction h with
  | nil start => exact .nil start
  | cons hp ho hpayload _ ih =>
    obtain ⟨more, rfl⟩ := hlog
    exact .cons hp ho (by rw [List.getElem?_append_left (List.getElem?_eq_some_iff.mp hpayload).1,
      hpayload]) ih

theorem append {more : List Record} (h : Stretch log p start records)
    (h' : Stretch log p (start + records.length) more) : Stretch log p start (records ++ more) := by
  induction h with
  | nil start => exact h'
  | cons hp ho hpayload _ ih =>
    refine .cons hp ho hpayload (ih ?_)
    rwa [List.length_cons, Nat.add_comm _ 1, ← Nat.add_assoc] at h'

theorem getElem? (h : Stretch log p start records) {i : Nat} {r : Record}
    (hr : records[i]? = some r) : r.partition = p ∧ r.offset.toInt = start + i ∧
      log[start + i]? = some r.payload := by
  induction h generalizing i with
  | nil => cases hr
  | cons hp ho hpayload _ ih =>
    cases i with
    | zero =>
      obtain rfl := Option.some.inj hr
      refine ⟨hp, ?_, hpayload⟩
      rw [ho, Int.natCast_zero, Int.add_zero]
    | succ i =>
      obtain ⟨hp, ho, hpayload⟩ := ih hr
      refine ⟨hp, ?_, ?_⟩
      · rw [ho]
        omega
      · rw [← hpayload]
        congr 1
        omega

end Stretch

namespace MemoryBroker

/-- The payloads of a partition; none if there is no such partition. -/
def log (b : MemoryBroker) (p : Partition) : List Bytes := (b.log? p).getD []

/-- Every log of the one broker continues that of the other. -/
def Extends (b b' : MemoryBroker) : Prop := ∀ p, b.log p <+: b'.log p

/-- No log has a record whose number is not an offset. No list in the memory of a machine with 64-bit
addresses is that long. -/
def Fits (b : MemoryBroker) : Prop := ∀ p, (b.log p).length < 2 ^ 63

/-- The group committed no negative position. -/
def CommitsPositions (b : MemoryBroker) : Prop := ∀ p n, b.committed.get? p = some n → 0 ≤ n

theorem Extends.refl (b : MemoryBroker) : b.Extends b := fun _ => List.prefix_refl _

theorem Extends.trans {a b c : MemoryBroker} (h : a.Extends b) (h' : b.Extends c) : a.Extends c :=
  fun p => (h p).trans (h' p)

theorem Fits.of_extends {b b' : MemoryBroker} (h : b'.Fits) (he : b.Extends b') : b.Fits :=
  fun p => Nat.lt_of_le_of_lt (he p).length_le (h p)

theorem fits_of_entries {b : MemoryBroker}
    (h : ∀ e ∈ b.topics.entries, ∀ log ∈ e.2, log.length < 2 ^ 63) : b.Fits := by
  intro p
  unfold log
  cases hlog : b.log? p with
  | none => exact Nat.two_pow_pos 63
  | some log =>
    unfold log? at hlog
    split at hlog
    · cases hlog
    · obtain ⟨logs, hlogs, hlog⟩ := Option.bind_eq_some_iff.mp hlog
      exact h _ (SortedMap.get?_eq_some_iff.mp hlogs) log (List.mem_of_getElem? hlog)

theorem log_eq (b : MemoryBroker) (p : Partition) :
    b.log p = if p.index < 0 then [] else ((b.logsOf p.topic)[p.index.toInt.toNat]?).getD [] := by
  unfold log log? logsOf
  split
  · rfl
  · cases b.topics.get? p.topic with
    | none => rfl
    | some logs => rfl

theorem extends_of_logsOf {b b' : MemoryBroker}
    (h : ∀ (topic : String) (i : Nat),
      ((b.logsOf topic)[i]?).getD [] <+: ((b'.logsOf topic)[i]?).getD []) :
    b.Extends b' := by
  intro p
  rw [log_eq, log_eq]
  split
  · exact List.prefix_refl _
  · exact h p.topic _

theorem logsOf_insert (b : MemoryBroker) (topic : String) (logs : List (List Bytes))
    (other : String) : logsOf { b with topics := b.topics.insert topic logs } other =
      if other = topic then logs else b.logsOf other := by
  unfold logsOf
  rw [SortedMap.get?_insert]
  split <;> rfl

theorem getElem?_grow (count : Nat) (logs : List (List Bytes)) (i : Nat) :
    ((grow count logs)[i]?).getD [] = (logs[i]?).getD [] := by
  unfold grow
  rw [List.getElem?_append]
  split
  · rfl
  · next h =>
    rw [List.getElem?_eq_none (Nat.le_of_not_lt h), List.getElem?_replicate]
    split <;> rfl

theorem createTopic_extends (b : MemoryBroker) (topic : String) (count : Nat) :
    b.Extends (b.createTopic topic count) := by
  apply extends_of_logsOf
  intro other i
  rw [createTopic, logsOf_insert]
  split
  next h => simp only [getElem?_grow, h, List.prefix_refl]
  next => exact List.prefix_refl _

theorem append_extends (b : MemoryBroker) (p : Partition) (payloads : List Bytes) :
    b.Extends (b.append p payloads) := by
  apply extends_of_logsOf
  intro other i
  simp only [append, logsOf_insert]
  split
  next h =>
    -- Adding empty partitions changes no log, so only the appended one has to be compared.
    rw [h, ← getElem?_grow (p.index.toInt.toNat + 1) (b.logsOf p.topic) i, List.getElem?_modify]
    split
    next =>
      cases (grow (p.index.toInt.toNat + 1) (b.logsOf p.topic))[i]? with
      | none => exact List.prefix_refl _
      | some log => exact List.prefix_append log payloads
    next => simp only [Option.map_eq_map, Option.map_id', List.prefix_refl]
  next => exact List.prefix_refl _

theorem change_extends (b : MemoryBroker) (c : BrokerChange) : b.Extends (b.change c) := by
  cases c with
  | createTopic topic count => exact b.createTopic_extends topic count
  | append p payloads => exact b.append_extends p payloads
  | failMetadata e | failPoll e | failCommit e => exact Extends.refl b

theorem change_committed (b : MemoryBroker) (c : BrokerChange) :
    (b.change c).committed = b.committed := by
  cases c <;> rfl

/-- The next records of a log, as an answer numbers them. -/
theorem numbered_stretch {log : List Bytes} (hfits : log.length < 2 ^ 63) (p : Partition)
    {start : Nat} {payloads : List Bytes} (h : payloads <+: log.drop start) :
    Stretch log p start (numbered p start payloads) := by
  induction payloads generalizing start with
  | nil => exact .nil start
  | cons payload payloads ih =>
    obtain ⟨more, hmore⟩ := h
    have hat : log[start]? = some payload := by
      rw [← Nat.add_zero start, ← List.getElem?_drop, ← hmore]
      rfl
    have hnext : payloads <+: log.drop (start + 1) := by
      refine ⟨more, ?_⟩
      rw [← List.tail_drop, ← hmore]
      rfl
    have hlt : start < 2 ^ 63 := Nat.lt_trans (List.getElem?_eq_some_iff.mp hat).1 hfits
    exact .cons rfl (Int64.toInt_ofNat_of_lt hlt) hat (ih hnext)

theorem poll_stretch {b : MemoryBroker} (hfits : b.Fits) {p : Partition} {position : Position}
    {timeoutMs : Nat} {records : List Record}
    (h : (b.poll p position timeoutMs).1.records = .ok records) :
    Stretch (b.log p) p position.toInt.toNat records := by
  unfold poll at h
  simp only at h
  split at h
  · cases h
  split at h
  · cases h
  · next log hlog =>
    obtain rfl := Except.ok.inj h
    have heq : b.log p = log := congrArg (Option.getD · []) hlog
    rw [heq]
    exact numbered_stretch (heq ▸ hfits p) p (List.take_prefix _ _)

theorem resolve_nonneg {b : MemoryBroker} (hfits : b.Fits) (hc : b.CommitsPositions)
    {p : Partition} {o : Offset} (ho : o.isSentinel = true) {n : Position}
    (h : (b.resolve p o).1 = .ok n) : 0 ≤ n := by
  unfold resolve at h
  split at h
  · cases h
  · next log hlog =>
    cases o with
    | concrete last => cases ho
    | earliest => exact Except.ok.inj h ▸ Int64.le_refl 0
    | latest =>
      have hlt : log.length < 2 ^ 63 := by
        have hp := hfits p
        rwa [show b.log p = log from congrArg (Option.getD · []) hlog] at hp
      rw [← Except.ok.inj h, Int64.le_iff_toInt_le, Int64.toInt_zero, Int64.toInt_ofNat_of_lt hlt]
      omega
    | groupCommitted =>
      rw [← Except.ok.inj h]
      cases hn : b.committed.get? p with
      | none => exact Int64.le_refl 0
      | some m => exact hc p m hn

theorem exists_resolve {b : MemoryBroker} {p : Partition} (h : (b.log? p).isSome = true) (o : Offset) :
    ∃ n, (b.resolve p o).1 = .ok n := by
  obtain ⟨log, hlog⟩ := Option.isSome_iff_exists.mp h
  rw [resolve, hlog]
  cases o with
  | earliest | latest | groupCommitted | concrete => exact ⟨_, rfl⟩

/-- Nothing happened to the logs or to what the group committed. -/
structure Keeps (b b' : MemoryBroker) : Prop where
  topics : b'.topics = b.topics
  committed : b'.committed = b.committed

theorem Keeps.extends {b b' : MemoryBroker} (h : b.Keeps b') : b.Extends b' := by
  intro p
  unfold log log?
  simp only [h.topics, List.prefix_refl]

theorem listTopics_keeps (b : MemoryBroker) : b.Keeps b.listTopics.2 := by
  unfold listTopics
  split <;> exact ⟨rfl, rfl⟩

theorem listPartitions_keeps (topics : List String) (b : MemoryBroker) :
    b.Keeps (b.listPartitions topics).2 := by
  unfold listPartitions
  split <;> exact ⟨rfl, rfl⟩

theorem resolve_keeps (p : Partition) (o : Offset) (b : MemoryBroker) :
    b.Keeps (b.resolve p o).2 := by
  unfold resolve
  split
  · exact ⟨rfl, rfl⟩
  · cases o <;> exact ⟨rfl, rfl⟩

theorem poll_keeps (p : Partition) (position : Position) (timeoutMs : Nat) (b : MemoryBroker) :
    b.Keeps (b.poll p position timeoutMs).2 := by
  unfold poll
  simp only
  split
  · exact ⟨rfl, rfl⟩
  · split <;> exact ⟨rfl, rfl⟩

theorem commit_extends (positions : OffsetMap) (b : MemoryBroker) :
    b.Extends (b.commit positions).2 := by
  unfold commit
  split <;> exact Extends.refl b

theorem commit_commitsPositions {positions : OffsetMap} {b : MemoryBroker}
    (hb : b.CommitsPositions) (h : ∀ p n, positions.get? p = some n → 0 ≤ n) :
    (b.commit positions).2.CommitsPositions := by
  unfold commit
  split
  · exact hb
  · intro p n hn
    rw [SortedMap.get?_union] at hn
    rcases Option.or_eq_some_iff.mp hn with hn | ⟨-, hn⟩
    · exact h p n hn
    · exact hb p n hn

def partitionsOf (b : MemoryBroker) (topic : String) : List Partition :=
  (List.range (b.logsOf topic).length).map fun i => ⟨topic, Int32.ofNat i⟩

/-- The topics that were created and their partitions. -/
def metadata (b : MemoryBroker) : Metadata := ⟨b.topics.keys, b.topics.keys.flatMap b.partitionsOf⟩

theorem topic_of_mem_partitionsOf {b : MemoryBroker} {topic : String} {p : Partition}
    (h : p ∈ b.partitionsOf topic) : p.topic = topic := by
  obtain ⟨i, -, rfl⟩ := List.mem_map.mp h
  rfl

theorem mem_keys_of_mem_partitionsOf {b : MemoryBroker} {topic : String} {p : Partition}
    (h : p ∈ b.partitionsOf topic) : topic ∈ b.topics.keys := by
  rw [SortedMap.mem_keys_iff, SortedMap.contains_eq_true_iff]
  cases hlogs : b.topics.get? topic with
  | some logs => exact ⟨logs, rfl⟩
  | none =>
    rw [partitionsOf, logsOf, hlogs] at h
    cases h

theorem mem_flatMap_partitionsOf {b : MemoryBroker} {topics : List String} {p : Partition} :
    p ∈ topics.flatMap b.partitionsOf ↔ p.topic ∈ topics ∧ p ∈ b.partitionsOf p.topic := by
  rw [List.mem_flatMap]
  constructor
  · rintro ⟨topic, htopic, hp⟩
    obtain rfl := topic_of_mem_partitionsOf hp
    exact ⟨htopic, hp⟩
  · rintro ⟨htopic, hp⟩
    exact ⟨p.topic, htopic, hp⟩

/-- As long as its topics stay as they are, a broker in memory lists them, unless a failure is queued. -/
theorem client_lists (b : MemoryBroker) :
    client.Lists b.metadata fun w => w.topics = b.topics where
  topics {w w' names} hw h topic := by
    change w.listTopics = _ at h
    unfold listTopics at h
    split at h
    · cases h
    · obtain rfl := Except.ok.inj (Prod.mk.inj h).1
      rw [hw]
      rfl
  partitions {asked w w' ps} hw h p hp := by
    have hlogs : w.logsOf = b.logsOf := by
      funext topic
      rw [logsOf, logsOf, hw]
    change w.listPartitions asked = _ at h
    unfold listPartitions at h
    split at h
    · cases h
    · obtain rfl := Except.ok.inj (Prod.mk.inj h).1
      rw [hlogs]
      change p ∈ asked.flatMap b.partitionsOf ↔ p ∈ b.topics.keys.flatMap b.partitionsOf
      rw [mem_flatMap_partitionsOf, mem_flatMap_partitionsOf]
      constructor
      · rintro ⟨-, hmem⟩
        exact ⟨mem_keys_of_mem_partitionsOf hmem, hmem⟩
      · rintro ⟨-, hmem⟩
        exact ⟨hp, hmem⟩
  afterTopics {w} hw := by
    change w.listTopics.2.topics = _
    unfold listTopics
    split <;> exact hw
  afterPartitions {w} asked hw := by
    change (w.listPartitions asked).2.topics = _
    unfold listPartitions
    split <;> exact hw

end MemoryBroker

namespace SharedBroker

/-- The logs may have grown, but the group committed nothing. -/
structure Grows (w w' : SharedBroker) : Prop where
  logs : w.broker.Extends w'.broker
  committed : w'.broker.committed = w.broker.committed

theorem Grows.refl (w : SharedBroker) : w.Grows w := ⟨MemoryBroker.Extends.refl _, rfl⟩

theorem Grows.trans {u v w : SharedBroker} (h : u.Grows v) (h' : v.Grows w) : u.Grows w :=
  ⟨h.logs.trans h'.logs, h'.committed.trans h.committed⟩

theorem Grows.commitsPositions {w w' : SharedBroker} (h : w.Grows w')
    (hw : w.broker.CommitsPositions) : w'.broker.CommitsPositions := by
  intro p n hn
  rw [h.committed] at hn
  exact hw p n hn

/-- A turn keeps what every change keeps, as its changes happen one after the other. -/
theorem turn_keeps {P : MemoryBroker → Prop} (hchange : ∀ b c, P b → P (b.change c))
    {w : SharedBroker} (h : P w.broker) : P w.turn.broker := by
  have hfold (changes : List BrokerChange) (b : MemoryBroker) (hb : P b) :
      P (changes.foldl MemoryBroker.change b) := by
    induction changes generalizing b with
    | nil => exact hb
    | cons c changes ih => exact ih (b.change c) (hchange b c hb)
  unfold turn
  split
  · exact h
  · exact hfold _ _ h

theorem turn_grows (w : SharedBroker) : w.Grows w.turn where
  logs := turn_keeps (fun b c h => h.trans (b.change_extends c)) (MemoryBroker.Extends.refl w.broker)
  committed := turn_keeps (P := fun b => b.committed = w.broker.committed)
    (fun b c h => (b.change_committed c).trans h) rfl

theorem answer_grows {α : Type} {request : MemoryBroker → α × MemoryBroker}
    (h : ∀ b : MemoryBroker, b.Keeps (request b).2) (w : SharedBroker) :
    w.Grows (answer request w).2 :=
  w.turn_grows.trans ⟨(h w.turn.broker).extends, (h w.turn.broker).committed⟩

theorem commit_extends (positions : OffsetMap) (w : SharedBroker) :
    w.broker.Extends (client.commit positions w).2.broker :=
  w.turn_grows.logs.trans (MemoryBroker.commit_extends positions w.turn.broker)

end SharedBroker

end CheckpointedLog
