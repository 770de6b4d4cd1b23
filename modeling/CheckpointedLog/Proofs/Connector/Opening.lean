import CheckpointedLog.Broker.Memory
import CheckpointedLog.Pattern.Reader
import CheckpointedLog.Proofs.Assignment
import CheckpointedLog.Proofs.Config.Source
import CheckpointedLog.Proofs.Discovery
import CheckpointedLog.Proofs.OffsetState

namespace CheckpointedLog

variable [Libraries]

namespace Connector

variable {δ ω : Type}

/-- The restored offset of the partition is kept, if the subtask owns it. -/
def Kept (c : Connector δ) (restored : OffsetState) (p : Partition) : Prop :=
  restored.contains p = true ∧
    (c.config.filtersRestored = false ∨ c.config.topics.covers p.topic = true)

theorem keepsTopic_iff {config : SourceConfig} {topic : String} :
    keepsTopic config topic = true ↔
      config.filtersRestored = false ∨ config.topics.covers topic = true := by
  rw [keepsTopic, Bool.or_eq_true, Bool.not_eq_true']

theorem get?_merge_fresh {c : Connector δ} (hc : c.restored = none) (owned : List Partition)
    (p : Partition) :
    (c.merge owned).get? p = if p ∈ owned then some (c.config.startupOffset p) else none := by
  rw [merge, hc]
  exact SortedMap.get?_ofList_map owned c.config.startupOffset p

theorem get?_merge_restored {c : Connector δ} {restored : OffsetState}
    (hc : c.restored = some restored) (owned : List Partition) (p : Partition) :
    (c.merge owned).get? p =
      ((restored.get? p).filter fun _ => c.subtask.owns p && keepsTopic c.config p.topic).or
        (if p ∈ owned then some .earliest else none) := by
  rw [merge, hc]
  exact (OffsetState.get?_addPartitions ..).trans (congrArg (Option.or · _)
    (SortedMap.get?_filter (fun q _ => c.subtask.owns q && keepsTopic c.config q.topic) restored p))

theorem get?_merge_of_kept {c : Connector δ} {restored : OffsetState}
    (hc : c.restored = some restored) (owned : List Partition) {p : Partition}
    (hown : c.subtask.owns p = true) (hk : c.Kept restored p) :
    (c.merge owned).get? p = restored.get? p := by
  obtain ⟨o, ho⟩ := SortedMap.contains_eq_true_iff.mp hk.1
  rw [get?_merge_restored hc, ho, Option.filter_some, hown, keepsTopic_iff.mpr hk.2]
  rfl

theorem get?_merge_of_not_kept {c : Connector δ} {restored : OffsetState}
    (hc : c.restored = some restored) (owned : List Partition) {p : Partition}
    (hk : ¬ (c.subtask.owns p = true ∧ c.Kept restored p)) :
    (c.merge owned).get? p = if p ∈ owned then some .earliest else none := by
  -- Either the partition was not restored, or its offset does not pass the filter.
  have hnone : (restored.get? p).filter
      (fun _ => c.subtask.owns p && keepsTopic c.config p.topic) = none := by
    rw [Option.filter_eq_none_iff]
    intro o ho hkeeps
    rw [Bool.and_eq_true] at hkeeps
    exact hk ⟨hkeeps.1, SortedMap.contains_eq_true_iff.mpr ⟨o, ho⟩, keepsTopic_iff.mp hkeeps.2⟩
  rw [get?_merge_restored hc, hnone, Option.none_or]

/-- The merged partitions are those that were given and those that are kept. -/
theorem contains_merge_iff (c : Connector δ) (owned : List Partition) (p : Partition) :
    (c.merge owned).contains p = true ↔
      p ∈ owned ∨
        ∃ restored, c.restored = some restored ∧ c.subtask.owns p = true ∧ c.Kept restored p := by
  rw [SortedMap.contains_eq_true_iff]
  cases hc : c.restored with
  | none =>
    rw [get?_merge_fresh hc]
    by_cases hp : p ∈ owned <;> simp [hp]
  | some restored =>
    by_cases hk : c.subtask.owns p = true ∧ c.Kept restored p
    · rw [get?_merge_of_kept hc owned hk.1 hk.2]
      exact iff_of_true (SortedMap.contains_eq_true_iff.mp hk.2.1) (Or.inr ⟨restored, rfl, hk⟩)
    · rw [get?_merge_of_not_kept hc owned hk]
      by_cases hp : p ∈ owned <;> simp [hp, hk]

/-- Merging a valid configuration with what was read from a snapshot gives offsets that a snapshot can
hold. -/
theorem merge_storable {c : Connector δ} (hc : c.config.validate = .ok ())
    (hr : ∀ restored, c.restored = some restored → restored.Storable) (owned : List Partition) :
    OffsetState.Storable (c.merge owned) := by
  intro p o ho
  cases hrestored : c.restored with
  | none =>
    rw [get?_merge_fresh hrestored] at ho
    split at ho
    · obtain rfl := Option.some.inj ho
      exact SourceConfig.startupOffset_storable hc p
    · cases ho
  | some restored =>
    rw [get?_merge_restored hrestored] at ho
    rcases Option.or_eq_some_iff.mp ho with ho | ⟨-, ho⟩
    · exact hr restored hrestored p o (Option.filter_eq_some_iff.mp ho).1
    · split at ho
      · obtain rfl := Option.some.inj ho
        trivial
      · cases ho

/-- The partitions that are found when a connector is opened. -/
def discoveredAtOpen (parts : Components δ ω) (c : Connector δ) (w : ω) :
    Except SourceError (List Partition) :=
  match parts.discoverer.start (parts.discoverer.create c.config.topics) w with
  | (.error e, _, _) => .error e
  | (.ok (), s, w) =>
    (discoverWithRetry parts.discoverer c.config.backoff 0 (c.config.maxDiscoveryAttempts.toNat - 1)
      0 s w).1

/-- A connector that was opened with the discovered partitions `ps`. -/
def Opened (c : Connector δ) (ps : List Partition) (s : δ) : Connector δ :=
  let offsets := c.merge (c.subtask.assign ps)
  { c with
    phase := .opened
    subscribed := offsets
    discoverer := some s
    fetcher := some { settings := fetchSettings c.config, offsets := offsets } }

/-- Opening succeeds only in the first phase and after a successful discovery. -/
theorem open_ok {parts : Components δ ω} {c : Connector δ} {w : ω}
    (h : (c.open parts w).result = .ok ()) :
    ∃ s w₁ ps elapsed s₂ w₂, c.phase = .created ∧
      parts.discoverer.start (parts.discoverer.create c.config.topics) w = (.ok (), s, w₁) ∧
      discoverWithRetry parts.discoverer c.config.backoff 0
        (c.config.maxDiscoveryAttempts.toNat - 1) 0 s w₁ = (.ok ps, elapsed, s₂, w₂) ∧
      (c.open parts w).connector = c.Opened ps
        (parts.discoverer.markAll (c.merge (c.subtask.assign ps)).keys s₂ w₂).2.1 ∧
      (c.open parts w).world =
        (parts.discoverer.markAll (c.merge (c.subtask.assign ps)).keys s₂ w₂).2.2 := by
  unfold «open» at h ⊢
  cases hr : c.require "open" [.created] with
  | error e =>
    simp only [hr] at h
    cases h
  | ok _ =>
    have hphase : c.phase = .created := by
      unfold require at hr
      split at hr
      · next hc => simpa using hc
      · cases hr
    rcases hs : parts.discoverer.start (parts.discoverer.create c.config.topics) w with ⟨_ | _, s, w₁⟩
    · simp only [hr, hs] at h
      cases h
    rcases hd : discoverWithRetry parts.discoverer c.config.backoff 0
      (c.config.maxDiscoveryAttempts.toNat - 1) 0 s w₁ with ⟨_ | ps, elapsed, s₂, w₂⟩
    · simp only [hr, hs, hd] at h
      cases h
    · simp only [hs, hd]
      exact ⟨s, w₁, ps, elapsed, s₂, w₂, hphase, rfl, hd, rfl, rfl⟩

theorem open_error {parts : Components δ ω} {c : Connector δ} {w : ω} {e : SourceError}
    (h : (c.open parts w).result = .error e) : (c.open parts w).connector = c := by
  unfold «open» at h ⊢
  cases hr : c.require "open" [.created] with
  | error e => rfl
  | ok _ =>
    rcases hs : parts.discoverer.start (parts.discoverer.create c.config.topics) w with ⟨_ | _, s, w₁⟩
    · simp only [hs]
    rcases hd : discoverWithRetry parts.discoverer c.config.backoff 0
      (c.config.maxDiscoveryAttempts.toNat - 1) 0 s w₁ with ⟨_ | ps, elapsed, s₂, w₂⟩
    · simp only [hs, hd]
    · simp only [hr, hs, hd] at h
      cases h

/-- The partitions that a broker discoverer finds for an opening are of covered topics. -/
theorem discoverWithRetry_covered {client : BrokerClient ω} {topics : Topics} {backoff : Backoff}
    {attempt : UInt32} {left waited elapsed : Nat} {s s₂ : BrokerDiscoverer} {w w₁ w₂ : ω}
    {ps : List Partition}
    (hs : (BrokerDiscoverer.discoverer client).start
      ((BrokerDiscoverer.discoverer client).create topics) w = (.ok (), s, w₁))
    (hd : discoverWithRetry (BrokerDiscoverer.discoverer client) backoff attempt left waited s w₁ =
      (.ok ps, elapsed, s₂, w₂)) {p : Partition} (hp : p ∈ ps) :
    topics.covers p.topic = true := by
  obtain ⟨htopics, hfits⟩ := BrokerDiscoverer.fits_of_start hs
  -- Every attempt asks with the same discoverer: asking changes nothing about it.
  obtain ⟨t, v, rfl, ht⟩ := discoverWithRetry_ok (P := fun t _ => t = s) (fun _ _ h => h) rfl hd
  have hcovers := BrokerDiscoverer.discover_covered hfits
    (BrokerDiscoverer.discover_of_discoverer ht) hp
  rwa [htopics] at hcovers

/-- From a broker with metadata, an opening finds what there is to find, however often it has to ask. -/
theorem mem_discoverWithRetry_iff {client : BrokerClient ω} {m : Metadata} {J : ω → Prop}
    (hm : client.Lists m J) {topics : Topics} {backoff : Backoff} {attempt : UInt32}
    {left waited elapsed : Nat} {s s₂ : BrokerDiscoverer} {w w₁ w₂ : ω} {ps : List Partition}
    (hw : J w)
    (hs : (BrokerDiscoverer.discoverer client).start
      ((BrokerDiscoverer.discoverer client).create topics) w = (.ok (), s, w₁))
    (hd : discoverWithRetry (BrokerDiscoverer.discoverer client) backoff attempt left waited s w₁ =
      (.ok ps, elapsed, s₂, w₂)) (p : Partition) : p ∈ ps ↔ m.Finds topics p := by
  obtain ⟨htopics, hfits⟩ := BrokerDiscoverer.fits_of_start hs
  obtain rfl : w = w₁ := congrArg (fun x => x.2.2) hs
  have hstays : ∀ t v, (t = s ∧ J v) → ((BrokerDiscoverer.discoverer client).discover t v).2.1 = s ∧
      J ((BrokerDiscoverer.discoverer client).discover t v).2.2 :=
    fun t v h => ⟨h.1, BrokerDiscoverer.discover_stays hm h.2⟩
  obtain ⟨t, v, ⟨rfl, hv⟩, ht⟩ := discoverWithRetry_ok hstays ⟨rfl, hw⟩ hd
  have hfinds := BrokerDiscoverer.mem_discover_iff hm hfits hv
    (BrokerDiscoverer.discover_of_discoverer ht) p
  rwa [htopics] at hfinds

/-- What a connector is after it was opened, when the partitions `discovered` were found. -/
structure MergedInto (c : Connector δ) (discovered : List Partition) (after : Connector δ) : Prop where
  tracked : ∀ p, after.subscribed.contains p = true ↔ c.subtask.owns p = true ∧
    (p ∈ discovered ∨ ∃ restored, c.restored = some restored ∧ c.Kept restored p)
  fresh : c.restored = none → ∀ p, after.subscribed.contains p = true →
    after.subscribed.get? p = some (c.config.startupOffset p)
  kept : ∀ restored, c.restored = some restored → ∀ p, after.subscribed.contains p = true →
    c.Kept restored p → after.subscribed.get? p = restored.get? p
  added : ∀ restored, c.restored = some restored → ∀ p, after.subscribed.contains p = true →
    ¬ c.Kept restored p → after.subscribed.get? p = some .earliest
  survives : ∀ restored, c.restored = some restored → ∀ p o, restored.get? p = some o →
    c.subtask.owns p = true → p ∈ discovered → after.subscribed.get? p = some o
  restored : after.restored = c.restored
  live : after.currentState = after.subscribed

/-- A successful opening tracks the owned partitions that were discovered or restored and kept, at
exactly the offsets that the configuration or the restored state gives them. -/
theorem open_merges_exactly (client : BrokerClient ω) (c : Connector BrokerDiscoverer) (w : ω)
    (h : (c.open ⟨client, BrokerDiscoverer.discoverer client⟩ w).result = .ok ()) :
    ∃ discovered,
      c.discoveredAtOpen ⟨client, BrokerDiscoverer.discoverer client⟩ w = .ok discovered ∧
      c.MergedInto discovered
        (c.open ⟨client, BrokerDiscoverer.discoverer client⟩ w).connector := by
  obtain ⟨s, w₁, ps, elapsed, s₂, w₂, -, hs, hd, hafter, -⟩ := open_ok h
  refine ⟨ps, ?_, ?_⟩
  · rw [discoveredAtOpen, hs]
    exact congrArg Prod.fst hd
  rw [hafter]
  -- What is merged is owned, whether it was discovered or restored.
  have howns {p : Partition} (hp : (c.merge (c.subtask.assign ps)).contains p = true) :
      c.subtask.owns p = true := by
    rcases (contains_merge_iff c _ p).mp hp with hp | ⟨restored, -, hown, -⟩
    · exact (Subtask.mem_assign.mp hp).2
    · exact hown
  constructor
  case tracked =>
    intro p
    apply (contains_merge_iff c _ p).trans
    rw [Subtask.mem_assign]
    constructor
    · rintro (⟨hp, hown⟩ | ⟨restored, hc, hown, hk⟩)
      · exact ⟨hown, Or.inl hp⟩
      · exact ⟨hown, Or.inr ⟨restored, hc, hk⟩⟩
    · rintro ⟨hown, hp | ⟨restored, hc, hk⟩⟩
      · exact Or.inl ⟨hp, hown⟩
      · exact Or.inr ⟨restored, hc, hown, hk⟩
  case fresh =>
    intro hc p hp
    rcases (contains_merge_iff c _ p).mp hp with hp | ⟨restored, hr, -⟩
    · exact (get?_merge_fresh hc _ p).trans (if_pos hp)
    · cases hc.symm.trans hr
  case kept =>
    intro restored hc p hp hk
    exact get?_merge_of_kept hc _ (howns hp) hk
  case added =>
    intro restored hc p hp hk
    have hnot : ¬ (c.subtask.owns p = true ∧ c.Kept restored p) := fun h => hk h.2
    rcases (contains_merge_iff c _ p).mp hp with hp | ⟨other, hr, h⟩
    · exact (get?_merge_of_not_kept hc _ hnot).trans (if_pos hp)
    · obtain rfl := Option.some.inj (hc.symm.trans hr)
      exact absurd h hnot
  case survives =>
    -- A discovered partition is of a covered topic, so the filter lets its restored offset pass.
    intro restored hc p o ho hown hp
    have hk : c.Kept restored p :=
      ⟨SortedMap.contains_eq_true_iff.mpr ⟨o, ho⟩, Or.inr (discoverWithRetry_covered hs hd hp)⟩
    exact (get?_merge_of_kept hc _ hown hk).trans ho
  case restored => rfl
  case live => rfl

end Connector

end CheckpointedLog

namespace CheckpointedLog.Connector

open scoped Pattern

/-- The restored offset of a discovered partition stays, and the partition beside it is new. -/
theorem open_merges_exactly_list :
    let parts : Components BrokerDiscoverer MemoryBroker :=
      ⟨MemoryBroker.client, BrokerDiscoverer.discoverer MemoryBroker.client⟩
    let c : Connector BrokerDiscoverer :=
      { config := { topics := .list ["a"] }
        subtask := .single
        restored := some (SortedMap.empty.insert ⟨"a", 0⟩ (.concrete 4)) }
    let b := (MemoryBroker.ofMaxBatch 1).createTopic "a" 2
    c.MergedInto [⟨"a", 0⟩, ⟨"a", 1⟩] (c.open parts b).connector := by
  intro parts c b
  have hopen : (c.open parts b).result = .ok () := by
    simp only [parts, c, b]
    rfl
  have hlisted : c.discoveredAtOpen parts b = .ok [⟨"a", 0⟩, ⟨"a", 1⟩] := by
    simp only [parts, c, b]
    rfl
  obtain ⟨discovered, hfound, hmerged⟩ := open_merges_exactly MemoryBroker.client c b hopen
  have hall : discovered = [⟨"a", 0⟩, ⟨"a", 1⟩] := Except.ok.inj (hfound.symm.trans hlisted)
  rwa [hall] at hmerged

end CheckpointedLog.Connector
