import CheckpointedLog.Pattern.Reader
import CheckpointedLog.Proofs.Broker.Memory
import CheckpointedLog.Proofs.Connector.Ownership

namespace CheckpointedLog

variable [Libraries] {δ ω : Type}

def SessionAction.restored? : SessionAction → Option OffsetState
  | restore bytes => (Snapshot.read bytes).toOption
  | restoreRelease release bytes => (Snapshot.readFrom release bytes).toOption
  | _ => none

namespace Session

theorem perform_restore {parts : Components δ ω} {s : Session δ ω}
    (hs : s.connector.phase = .created) {a : SessionAction} (ha : a.isRestore = true) :
    s.perform parts a = { s with
      connector := { s.connector with restored := a.restored?.or s.connector.restored } } := by
  cases a with
  | restore bytes | restoreRelease release bytes =>
    simp only [perform, Connector.restore, Connector.restoreRelease,
      Connector.restoreFrom_of_created hs]
    rfl
  | _ => cases ha

/-- The offsets that stay after several actions which restore: those of the last one that succeeded. -/
theorem performAll_restores {actions : List SessionAction}
    (hactions : ∀ a ∈ actions, a.isRestore = true) :
    ∃ restored, ∀ {δ ω : Type} (parts : Components δ ω) (s : Session δ ω),
      s.connector.phase = .created → s.performAll parts actions = { s with
        connector := { s.connector with restored := Option.or restored s.connector.restored } } := by
  induction actions with
  | nil => exact ⟨none, fun parts s hs => rfl⟩
  | cons a actions ih =>
    obtain ⟨ha, hactions⟩ := List.forall_mem_cons.mp hactions
    obtain ⟨restored, ih⟩ := ih hactions
    -- What `a` restores stays only if nothing is restored after it.
    refine ⟨restored.or a.restored?, fun parts s hs => ?_⟩
    have hstep : s.perform parts a = _ := perform_restore hs ha
    have hphase : (s.perform parts a).connector.phase = .created := by
      rw [hstep]
      exact hs
    rw [performAll, List.foldl_cons, ← performAll, ih parts _ hphase, hstep, Option.or_assoc]

/-- What a created connector tracks at any time belongs to its subtask. -/
theorem owner_of_tracked {config : SourceConfig} {index count : UInt64} {c : Connector δ}
    (hc : Connector.create config index count = .ok c) (parts : Components δ ω) (w : ω)
    (actions : List SessionAction) (p : Partition)
    (hp : ((start c w).performAll parts actions).connector.currentState.contains p = true) :
    Assignment.ownerOf p count = index := by
  obtain ⟨-, t, ht, rfl⟩ := Connector.create_ok hc
  obtain ⟨-, hindex, hcount⟩ := Subtask.ofIndex_ok ht
  have howning : (start { config := config, subtask := t } w : Session δ ω).Owning :=
    owning_start rfl w
  have howns := (howning.performAll parts actions).tracked p hp
  rw [performAll_subtask] at howns
  exact (hcount ▸ Subtask.owns_iff.mp howns).trans hindex

end Session

namespace Connector

/-- It does not matter in which order and how often partitions are given. -/
theorem merge_congr (c : Connector δ) {ps qs : List Partition} (h : ∀ p, p ∈ ps ↔ p ∈ qs) :
    c.merge ps = c.merge qs := by
  apply SortedMap.ext_get?
  intro p
  have hp := h p
  cases hc : c.restored with
  | none => simp only [get?_merge_fresh hc, hp]
  | some restored => simp only [get?_merge_restored hc, hp]

/-- What a subtask merges is its share of what a single subtask merges. -/
theorem get?_merge_assign {part whole : Connector δ} (hconfig : part.config = whole.config)
    (hrestored : part.restored = whole.restored) (hwhole : whole.subtask.count = 1)
    (ps : List Partition) (p : Partition) :
    (part.merge (part.subtask.assign ps)).get? p =
      if part.subtask.owns p then (whole.merge (whole.subtask.assign ps)).get? p else none := by
  have hall := Subtask.owns_of_count_eq_one hwhole p
  cases hown : part.subtask.owns p with
  | false =>
    -- A partition of another subtask is neither assigned nor kept.
    have hnot : p ∉ part.subtask.assign ps := by
      rw [Subtask.mem_assign, hown]
      exact fun h => Bool.false_ne_true h.2
    rw [if_neg Bool.false_ne_true]
    cases hc : part.restored with
    | none => rw [get?_merge_fresh hc, if_neg hnot]
    | some restored =>
      have hkept : ¬ (part.subtask.owns p = true ∧ part.Kept restored p) := by
        rw [hown]
        exact fun h => Bool.false_ne_true h.1
      rw [get?_merge_of_not_kept hc _ hkept, if_neg hnot]
  | true =>
    -- Both have it assigned under the same condition, and both keep the same restored offset.
    have hmem : p ∈ part.subtask.assign ps ↔ p ∈ whole.subtask.assign ps := by
      rw [Subtask.mem_assign, Subtask.mem_assign, hown, hall]
    rw [if_pos rfl]
    cases hc : part.restored with
    | none =>
      have hc' := hrestored.symm.trans hc
      simp only [get?_merge_fresh hc, get?_merge_fresh hc', hmem, hconfig]
    | some restored =>
      have hc' := hrestored.symm.trans hc
      simp only [get?_merge_restored hc, get?_merge_restored hc', hmem, hown, hall, hconfig]

theorem create_of_valid {config : SourceConfig} (hvalid : config.validate = .ok ()) (t : Subtask) :
    create config t.index t.count = .ok ({ config := config, subtask := t } : Connector δ) := by
  rw [create, hvalid]
  simp only [bind, Except.bind, Subtask.ofIndex_self]
  rfl

/-- A connector for subtask `index` of `count` that was created, restored by the actions `restores` and
opened with a client of its own, at a broker with the metadata `m`. -/
inductive OpenedAs (m : Metadata) (config : SourceConfig) (restores : List SessionAction)
    (index count : UInt64) : Connector BrokerDiscoverer → Prop where
  | opened {ω : Type} {client : BrokerClient ω} {J : ω → Prop} {c : Connector BrokerDiscoverer}
      {w : ω} (hlists : client.Lists m J) (hw : J w) (hcreate : create config index count = .ok c)
      (hopen : let parts := ⟨client, BrokerDiscoverer.discoverer client⟩
        let s := (Session.start c w).performAll parts restores
        (s.connector.open parts s.world).result = .ok ()) :
      OpenedAs m config restores index count
        (let parts := ⟨client, BrokerDiscoverer.discoverer client⟩
        let s := (Session.start c w).performAll parts restores
        (s.connector.open parts s.world).connector)

variable {m : Metadata} {config : SourceConfig} {restores : List SessionAction}

/-- What is restored and what is found is the same for all subtasks. -/
theorem OpenedAs.exists_subscribed_eq (hrestores : ∀ a ∈ restores, a.isRestore = true) :
    ∃ restored, ∀ {index count c}, OpenedAs m config restores index count c →
      ∃ (before : Connector BrokerDiscoverer) (ps : List Partition), before.config = config ∧
        before.restored = restored ∧ before.subtask.index = index ∧ before.subtask.count = count ∧
        (∀ p, p ∈ ps ↔ m.Finds config.topics p) ∧
        c.subscribed = before.merge (before.subtask.assign ps) := by
  obtain ⟨restored, hrestored⟩ := Session.performAll_restores hrestores
  refine ⟨restored, fun {index count c} hc => ?_⟩
  cases hc with
  | @opened ω client J c w hlists hw hcreate hopen =>
    obtain ⟨-, t, ht, rfl⟩ := create_ok hcreate
    obtain ⟨-, hindex, hcount⟩ := Subtask.ofIndex_ok ht
    have hsession := hrestored ⟨client, BrokerDiscoverer.discoverer client⟩
      (Session.start { config := config, subtask := t } w) rfl
    simp only [hsession] at hopen ⊢
    obtain ⟨s, w₁, ps, elapsed, s₂, w₂, -, hs, hd, hconnector, -⟩ := open_ok hopen
    rw [hconnector]
    exact ⟨_, ps, rfl, Option.or_none, hindex, hcount,
      mem_discoverWithRetry_iff hlists hw hs hd, rfl⟩

/-- What a subtask opens is its share of what a single subtask opens. -/
theorem OpenedAs.get?_subscribed (hrestores : ∀ a ∈ restores, a.isRestore = true)
    {whole part : Connector BrokerDiscoverer} (hwhole : OpenedAs m config restores 0 1 whole)
    {index count : UInt64} (hpart : OpenedAs m config restores index count part) (p : Partition) :
    part.subscribed.get? p =
      if Assignment.ownerOf p count = index then whole.subscribed.get? p else none := by
  obtain ⟨restored, hopened⟩ := OpenedAs.exists_subscribed_eq (m := m) hrestores
  obtain ⟨a, ps, haconfig, harestored, -, hone, hps, hwhole⟩ := hopened hwhole
  obtain ⟨b, qs, hbconfig, hbrestored, hindex, hcount, hqs, hpart⟩ := hopened hpart
  have hfound (q : Partition) : q ∈ b.subtask.assign qs ↔ q ∈ b.subtask.assign ps := by
    rw [Subtask.mem_assign, Subtask.mem_assign, hps, hqs]
  have hown : b.subtask.owns p = true ↔ Assignment.ownerOf p count = index := by
    rw [Subtask.owns_iff, hindex, hcount]
  rw [hpart, hwhole, merge_congr b hfound, get?_merge_assign (hbconfig.trans haconfig.symm)
    (hbrestored.trans harestored.symm) hone]
  simp only [hown]

/-- However many subtasks there are, those that are opened from the same snapshots at the same metadata
track together, at the same offsets, what a single one would track, and no partition twice. Whatever
becomes of them and of the metadata later, no partition is ever tracked by two of them. -/
theorem subtasks_divide_partitions (hrestores : ∀ a ∈ restores, a.isRestore = true)
    {count : UInt64} (hcount : count ≠ 0) {whole : Connector BrokerDiscoverer}
    (hwhole : OpenedAs m config restores 0 1 whole) {part : UInt64 → Connector BrokerDiscoverer}
    (hpart : ∀ i < count, OpenedAs m config restores i count (part i)) :
    (∀ i < count, ∀ j < count, i ≠ j → ∀ p,
      ¬ ((part i).subscribed.contains p = true ∧ (part j).subscribed.contains p = true)) ∧
    (∀ p o, whole.subscribed.get? p = some o ↔
      ∃ i < count, (part i).subscribed.get? p = some o) ∧
    ∀ i j, i ≠ j → ∀ {δ ω δ' ω' : Type} (parts : Components δ ω) (parts' : Components δ' ω') {c c'},
      create config i count = .ok c → create config j count = .ok c' →
      ∀ w w' actions actions' p,
        ¬ (((Session.start c w).performAll parts actions).connector.currentState.contains p = true ∧
          ((Session.start c' w').performAll parts' actions').connector.currentState.contains p =
            true) := by
  have hshare {i : UInt64} (hi : i < count) (p : Partition) :=
    OpenedAs.get?_subscribed hrestores hwhole (hpart i hi) p
  refine ⟨fun i hi j hj hij p hp => ?_, fun p o => ⟨fun ho => ?_, ?_⟩, ?_⟩
  · have howner {k : UInt64} (hk : k < count) (h : (part k).subscribed.contains p = true) :
        Assignment.ownerOf p count = k := by
      rw [SortedMap.contains, hshare hk p] at h
      split at h
      next howner => exact howner
      next => cases h
    exact hij ((howner hi hp.1).symm.trans (howner hj hp.2))
  · have howner := Assignment.ownerOf_lt p hcount
    exact ⟨_, howner, (hshare howner p).trans ((if_pos rfl).trans ho)⟩
  · rintro ⟨i, hi, ho⟩
    rw [hshare hi p] at ho
    split at ho
    · exact ho
    · cases ho
  · intro i j hij δ ω δ' ω' parts parts' c c' hc hc' w w' actions actions' p hp
    have howner := Session.owner_of_tracked hc parts w actions p hp.1
    exact hij (howner.symm.trans (Session.owner_of_tracked hc' parts' w' actions' p hp.2))

end Connector

end CheckpointedLog

namespace CheckpointedLog.Connector

open scoped Pattern

/-- Three subtasks divide a topic of four partitions, of which one has a restored offset. -/
theorem subtasks_divide_partitions_of_topic :
    let config : SourceConfig := { topics := .list ["a"] }
    let restores : List SessionAction :=
      [.restore (Snapshot.write (SortedMap.empty.insert ⟨"a", 0⟩ (.concrete 4)))]
    let parts : Components BrokerDiscoverer MemoryBroker :=
      ⟨MemoryBroker.client, BrokerDiscoverer.discoverer MemoryBroker.client⟩
    let b := (MemoryBroker.ofMaxBatch 1).createTopic "a" 4
    let opened (t : Subtask) : Connector BrokerDiscoverer :=
      let s := (Session.start { config := config, subtask := t } b).performAll parts restores
      (s.connector.open parts s.world).connector
    let part (i : UInt64) := opened (if h : i < 3 then ⟨i, 3, h⟩ else .single)
    (∀ i < 3, ∀ j < 3, i ≠ j → ∀ p,
      ¬ ((part i).subscribed.contains p = true ∧ (part j).subscribed.contains p = true)) ∧
    ∀ p o, (opened .single).subscribed.get? p = some o ↔
      ∃ i < 3, (part i).subscribed.get? p = some o := by
  intro config restores parts b opened part
  have hrestores : ∀ a ∈ restores, a.isRestore = true := by
    simp only [restores, List.mem_singleton, forall_eq]
    rfl
  have hvalid : config.validate = .ok () := by
    simp only [config]
    rfl
  have hopened (t : Subtask) :
      let s := (Session.start { config := config, subtask := t } b).performAll parts restores
      (s.connector.open parts s.world).result = .ok () := by
    obtain ⟨restored, hrestored⟩ := Session.performAll_restores hrestores
    simp only [hrestored parts (Session.start { config := config, subtask := t } b) rfl]
    simp only [config, parts, b]
    rfl
  have hopenedAs (t : Subtask) : OpenedAs b.metadata config restores t.index t.count (opened t) :=
    .opened (MemoryBroker.client_lists b) rfl (create_of_valid hvalid t) (hopened t)
  have hpart : ∀ i < 3, OpenedAs b.metadata config restores i 3 (part i) := by
    intro i hi
    simp only [part, dif_pos hi]
    exact hopenedAs ⟨i, 3, hi⟩
  have hdivided := subtasks_divide_partitions hrestores (by decide) (hopenedAs .single) hpart
  exact ⟨hdivided.1, hdivided.2.1⟩

end CheckpointedLog.Connector
