import CheckpointedLog.Broker.Metadata
import CheckpointedLog.Connector.Connector
import CheckpointedLog.Proofs.SortedMap

namespace CheckpointedLog

variable [Libraries] {δ ω : Type}

namespace BrokerDiscoverer

/-- The expression of a discoverer, if it has one, is that of its pattern. -/
def Fits (d : BrokerDiscoverer) : Prop :=
  ∀ r, d.expression = some r → d.topics.compilePattern = .ok r

theorem start_fits {d d' : BrokerDiscoverer} (hd : d.Fits) (h : d.start = (.ok (), d')) :
    d'.topics = d.topics ∧ d'.Fits := by
  unfold start at h
  split at h
  · cases h
  · obtain rfl := (Prod.mk.inj h).2
    exact ⟨rfl, hd⟩
  · split at h
    next names ht =>
      obtain rfl := (Prod.mk.inj h).2
      exact ⟨rfl, fun r hr => hd r hr⟩
    next text ht =>
      split at h
      · cases h
      · next r hr =>
        obtain rfl := (Prod.mk.inj h).2
        refine ⟨rfl, fun r' hr' => ?_⟩
        obtain rfl := Option.some.inj hr'
        exact hr

/-- A discoverer that was opened has the expression of its pattern, if it has a pattern. -/
structure Ready (d : BrokerDiscoverer) : Prop where
  phase : d.phase = .opened
  expression : ∀ text, d.topics = .pattern text → ∃ r, d.expression = some r

theorem ready_of_start {topics : Topics} {d : BrokerDiscoverer}
    (h : start { topics := topics } = (.ok (), d)) : d.Ready := by
  cases topics with
  | list names =>
    cases h
    exact ⟨rfl, fun text htext => by cases htext⟩
  | pattern text =>
    unfold start at h
    simp only at h
    split at h
    · cases h
    · next r hr =>
      cases h
      exact ⟨rfl, fun _ _ => ⟨r, rfl⟩⟩

/-- A discoverer can be opened unless its pattern cannot be compiled. -/
theorem exists_start {topics : Topics}
    (h : ∀ text, topics = .pattern text → ∃ r, topics.compilePattern = .ok r) :
    ∃ d, start { topics := topics } = (.ok (), d) := by
  cases topics with
  | list names => exact ⟨_, rfl⟩
  | pattern text =>
    obtain ⟨r, hr⟩ := h text rfl
    refine ⟨{ topics := .pattern text, phase := .opened, expression := some r }, ?_⟩
    simp only [start, hr]

omit [Libraries] in
/-- An open discoverer fails only where the broker fails to list something, and reports this as a failure
that is tried again. -/
theorem Ready.isRetryable {client : BrokerClient ω} {d : BrokerDiscoverer} (hd : d.Ready) {w w' : ω}
    {e : SourceError} (h : d.discover client w = (.error e, w')) : e.isRetryable = true := by
  have hsubscribed {e : SourceError} {w' : ω} (h : d.subscribed client w = (.error e, w')) :
      e.isRetryable = true := by
    unfold subscribed at h
    split at h
    next => cases h
    next =>
      split at h
      next =>
        obtain rfl := Except.error.inj (Prod.mk.inj h).1
        rfl
      next => cases h
    next text htopics hnone =>
      obtain ⟨r, hr⟩ := hd.expression text htopics
      cases hnone.symm.trans hr
  rw [discover, if_neg (not_not_intro hd.phase)] at h
  split at h
  next e' w₁ hfailed =>
    obtain rfl := Except.error.inj (Prod.mk.inj h).1
    exact hsubscribed hfailed
  next => cases h
  next =>
    split at h
    next =>
      obtain rfl := Except.error.inj (Prod.mk.inj h).1
      rfl
    next => cases h

/-- The matcher of the subscription compiles the same pattern again. -/
theorem covers_of_expression {d : BrokerDiscoverer} (hd : d.Fits) {text : String}
    {found : String → Bool} (ht : d.topics = .pattern text) (hr : d.expression = some found)
    (topic : String) : d.topics.covers topic = found topic := by
  have hc := hd found hr
  rw [ht] at hc ⊢
  rw [Topics.covers, Topics.matcher, hc]
  rfl

theorem subscribed_covered {client : BrokerClient ω} {d : BrokerDiscoverer} (hd : d.Fits)
    {w w' : ω} {names : List String} (h : d.subscribed client w = (.ok names, w'))
    {name : String} (hn : name ∈ names) : d.topics.covers name = true := by
  unfold subscribed at h
  split at h
  next all _ ht =>
    obtain rfl := Except.ok.inj (Prod.mk.inj h).1
    rw [ht]
    exact List.contains_iff_mem.mpr hn
  next text r ht hr =>
    split at h
    · cases h
    · next all w₁ _ =>
      obtain rfl := Except.ok.inj (Prod.mk.inj h).1
      rw [covers_of_expression hd ht hr]
      exact (List.mem_filter.mp hn).2
  next => cases h

theorem discover_covered {client : BrokerClient ω} {d : BrokerDiscoverer} (hd : d.Fits) {w w' : ω}
    {ps : List Partition} (h : d.discover client w = (.ok ps, w')) {p : Partition} (hp : p ∈ ps) :
    d.topics.covers p.topic = true := by
  unfold discover at h
  split at h
  · cases h
  · split at h
    next => cases h
    next =>
      obtain rfl := Except.ok.inj (Prod.mk.inj h).1
      cases hp
    next names w₁ hne hs =>
      split at h
      · cases h
      · next all w₂ _ =>
        obtain rfl := Except.ok.inj (Prod.mk.inj h).1
        -- The broker may list partitions of other topics; they are dropped.
        have hmem := (List.mem_filter.mp (Partition.mem_ascending.mp hp)).2
        exact subscribed_covered hd hs (List.contains_iff_mem.mp hmem)

section Metadata

variable {client : BrokerClient ω} {m : Metadata} {J : ω → Prop} {d : BrokerDiscoverer} {w w' : ω}

theorem mem_subscribed_iff (hm : client.Lists m J) (hd : d.Fits) (hw : J w) {names : List String}
    (h : d.subscribed client w = (.ok names, w')) (topic : String) :
    topic ∈ names ↔ m.Subscribed d.topics topic := by
  unfold subscribed at h
  split at h
  next all _ ht =>
    obtain rfl := Except.ok.inj (Prod.mk.inj h).1
    rw [ht]
    rfl
  next text r ht hr =>
    have hcovers := covers_of_expression hd ht hr topic
    split at h
    · cases h
    next all w₁ hlist =>
    obtain rfl := Except.ok.inj (Prod.mk.inj h).1
    rw [ht] at hcovers ⊢
    rw [List.mem_filter, hm.topics hw hlist, Metadata.Subscribed, hcovers]
  next => cases h

omit [Libraries] in
theorem subscribed_stays (hm : client.Lists m J) (hw : J w) : J (d.subscribed client w).2 := by
  have hlist := hm.afterTopics hw
  unfold subscribed
  split
  · exact hw
  · split
    next hr => rwa [hr] at hlist
    next hr => rwa [hr] at hlist
  · exact hw

omit [Libraries] in
theorem discover_stays (hm : client.Lists m J) (hw : J w) : J (d.discover client w).2 := by
  have hsubscribed : J (d.subscribed client w).2 := subscribed_stays hm hw
  unfold discover
  split
  · exact hw
  split
  next hr => rwa [hr] at hsubscribed
  next hr => rwa [hr] at hsubscribed
  next names w₁ _ hr =>
    rw [hr] at hsubscribed
    have hlist := hm.afterPartitions names hsubscribed
    split
    next hr => rwa [hr] at hlist
    next hr => rwa [hr] at hlist

theorem mem_discover_iff (hm : client.Lists m J) (hd : d.Fits) (hw : J w) {ps : List Partition}
    (h : d.discover client w = (.ok ps, w')) (p : Partition) : p ∈ ps ↔ m.Finds d.topics p := by
  have hstay : J (d.subscribed client w).2 := subscribed_stays hm hw
  unfold discover at h
  split at h
  · cases h
  split at h
  · cases h
  next w₁ hs =>
    obtain rfl := Except.ok.inj (Prod.mk.inj h).1
    have hnone := mem_subscribed_iff hm hd hw hs p.topic
    exact ⟨nofun, fun hp => absurd (hnone.mpr hp.1) List.not_mem_nil⟩
  next names w₁ _ hs =>
    rw [hs] at hstay
    have hnames := mem_subscribed_iff hm hd hw hs p.topic
    split at h
    · cases h
    next listed w₂ hlist =>
    obtain rfl := Except.ok.inj (Prod.mk.inj h).1
    rw [Partition.mem_ascending, List.mem_filter, List.contains_iff_mem, Metadata.Finds, ← hnames]
    constructor
    · rintro ⟨hp, htopic⟩
      exact ⟨htopic, (hm.partitions hstay hlist p htopic).mp hp⟩
    · rintro ⟨htopic, hp⟩
      exact ⟨(hm.partitions hstay hlist p htopic).mpr hp, htopic⟩

end Metadata

theorem start_of_discoverer {client : BrokerClient ω} {d d' : BrokerDiscoverer} {w w' : ω}
    {r : Except SourceError Unit} (h : (discoverer client).start d w = (r, d', w')) :
    d.start = (r, d') := by
  change (d.start.1, d.start.2, w) = (r, d', w') at h
  simp only [Prod.mk.injEq] at h
  exact Prod.ext h.1 h.2.1

/-- A discoverer that was created for a subscription and started fits it. -/
theorem fits_of_start {client : BrokerClient ω} {topics : Topics} {d : BrokerDiscoverer} {w w' : ω}
    (h : (discoverer client).start ((discoverer client).create topics) w = (.ok (), d, w')) :
    d.topics = topics ∧ d.Fits := by
  have hfresh : BrokerDiscoverer.Fits { topics := topics } := fun r hr => by cases hr
  exact start_fits hfresh (start_of_discoverer h)

theorem discover_of_discoverer {client : BrokerClient ω} {d d' : BrokerDiscoverer} {w w' : ω}
    {r : Except SourceError (List Partition)}
    (h : (discoverer client).discover d w = (r, d', w')) : d.discover client w = (r, w') := by
  change ((d.discover client w).1, d, (d.discover client w).2) = (r, d', w') at h
  simp only [Prod.mk.injEq] at h
  exact Prod.ext h.1 h.2.2

end BrokerDiscoverer

namespace BrokerDiscoverer

/-- What marking `ps` one after the other makes of a discoverer, and what it finds. -/
structure MarksAll (ps : List Partition) (d : BrokerDiscoverer) (found : List Partition)
    (d' : BrokerDiscoverer) : Prop where
  marked : ∀ p, d'.marked.contains p = true ↔ d.marked.contains p = true ∨ p ∈ ps
  anew : ∀ p, p ∈ found ↔ p ∈ ps ∧ d.marked.contains p = false
  nodup : found.Nodup

def Remembers (d d' : BrokerDiscoverer) : Prop :=
  ∀ p, d.marked.contains p = true → d'.marked.contains p = true

omit [Libraries] in
theorem Remembers.of_eq {d d' : BrokerDiscoverer} (h : d'.marked = d.marked) : Remembers d d' := by
  intro p hp
  rwa [h]

omit [Libraries] in
theorem Remembers.trans {d d' d'' : BrokerDiscoverer} (h : Remembers d d') (h' : Remembers d' d'') :
    Remembers d d'' :=
  fun p hp => h' p (h p hp)

omit [Libraries] in
theorem MarksAll.remembers {ps found : List Partition} {d d' : BrokerDiscoverer}
    (h : MarksAll ps d found d') : Remembers d d' :=
  fun p hp => (h.marked p).mpr (Or.inl hp)

omit [Libraries] in
theorem marksAll_cons {p : Partition} {ps found : List Partition} {d d' : BrokerDiscoverer}
    (h : MarksAll ps { d with marked := d.marked.insert p () } found d') :
    MarksAll (p :: ps) d (if !d.marked.contains p then p :: found else found) d' := by
  have hinsert (q : Partition) :
      (d.marked.insert p ()).contains q = true ↔ q = p ∨ d.marked.contains q = true := by
    rw [SortedMap.contains_insert, Bool.or_eq_true, decide_eq_true_eq]
  have hanew (q : Partition) : q ∈ found ↔ q ∈ ps ∧ q ≠ p ∧ d.marked.contains q = false := by
    rw [h.anew, ← Bool.not_eq_true, hinsert, not_or, Bool.not_eq_true]
  constructor
  case marked =>
    intro q
    rw [h.marked, hinsert, List.mem_cons, or_left_comm, or_assoc]
  case anew =>
    intro q
    cases hp : d.marked.contains p with
    | true =>
      -- The partition was marked before, so that it is not found again.
      have hne : d.marked.contains q = false → q ≠ p := by
        rintro hq rfl
        cases hq.symm.trans hp
      simp only [Bool.not_true, Bool.false_eq_true, if_false, hanew, List.mem_cons]
      constructor
      · rintro ⟨hq, -, hmarked⟩
        exact ⟨Or.inr hq, hmarked⟩
      · rintro ⟨hq, hmarked⟩
        exact ⟨hq.resolve_left (hne hmarked), hne hmarked, hmarked⟩
    | false =>
      simp only [Bool.not_false, if_true, List.mem_cons, hanew]
      constructor
      · rintro (rfl | ⟨hq, -, hmarked⟩)
        · exact ⟨Or.inl rfl, hp⟩
        · exact ⟨Or.inr hq, hmarked⟩
      · rintro ⟨hq, hmarked⟩
        by_cases hqp : q = p
        · exact Or.inl hqp
        · exact Or.inr ⟨hq.resolve_left hqp, hqp, hmarked⟩
  case nodup =>
    split
    · refine List.nodup_cons.mpr ⟨fun hp => ?_, h.nodup⟩
      exact ((hanew p).mp hp).2.1 rfl
    · exact h.nodup

theorem marksAll (client : BrokerClient ω) (ps : List Partition) (d : BrokerDiscoverer) (w : ω) :
    MarksAll ps d ((discoverer client).markAll ps d w).1 ((discoverer client).markAll ps d w).2.1 := by
  induction ps generalizing d w with
  | nil => exact ⟨by simp [Discoverer.markAll], by simp [Discoverer.markAll], List.nodup_nil⟩
  | cons p ps ih => exact marksAll_cons (ih { d with marked := d.marked.insert p () } w)

theorem start_marked {d d' : BrokerDiscoverer} {r : Except SourceError Unit}
    (h : d.start = (r, d')) : d'.marked = d.marked := by
  unfold start at h
  repeat' split at h
  all_goals
    obtain ⟨-, rfl⟩ := Prod.mk.inj h
    rfl

end BrokerDiscoverer

namespace Connector

omit [Libraries] in
/-- Whatever every attempt keeps of a discoverer and its world, partitions come from an attempt of which
this holds. -/
theorem discoverWithRetry_ok {d : Discoverer δ ω} {backoff : Backoff} {P : δ → ω → Prop}
    (hP : ∀ s w, P s w → P (d.discover s w).2.1 (d.discover s w).2.2) {attempt : UInt32}
    {left waited elapsed : Nat} {s s' : δ} {w w' : ω} {ps : List Partition} (hs : P s w)
    (h : discoverWithRetry d backoff attempt left waited s w = (.ok ps, elapsed, s', w')) :
    ∃ t v, P t v ∧ d.discover t v = (.ok ps, s', w') := by
  -- The induction is on the number of attempts that are left.
  induction left generalizing attempt waited s w with
  | zero =>
    unfold discoverWithRetry at h
    split at h
    next ps₁ s₁ w₁ hd =>
      obtain ⟨rfl, rfl, rfl, rfl⟩ := h
      exact ⟨s, w, hs, hd⟩
    next => split at h <;> cases h
  | succ left ih =>
    unfold discoverWithRetry at h
    split at h
    next ps₁ s₁ w₁ hd =>
      obtain ⟨rfl, rfl, rfl, rfl⟩ := h
      exact ⟨s, w, hs, hd⟩
    next e s₁ w₁ hd =>
      split at h
      · cases h
      · have hnext := hP s w hs
        rw [hd] at hnext
        exact ih hnext h

end Connector

end CheckpointedLog
