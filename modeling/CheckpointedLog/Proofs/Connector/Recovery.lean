import CheckpointedLog.Pattern.Reader
import CheckpointedLog.Proofs.Connector.Session
import CheckpointedLog.Proofs.Fetch.Delivery

namespace CheckpointedLog

variable [Libraries]

namespace SharedBroker

/-- A connector that finds its partitions at a broker in memory and reads them from there. -/
def components : Components BrokerDiscoverer SharedBroker :=
  ⟨client, BrokerDiscoverer.discoverer client⟩

omit [Libraries] in
theorem subscribed_grows (d : BrokerDiscoverer) (w : SharedBroker) :
    w.Grows (d.subscribed client w).2 := by
  have hlist : w.Grows (client.listTopics w).2 := answer_grows MemoryBroker.listTopics_keeps w
  unfold BrokerDiscoverer.subscribed
  split
  · exact Grows.refl w
  · split
    next hr => rwa [hr] at hlist
    next hr => rwa [hr] at hlist
  · exact Grows.refl w

omit [Libraries] in
theorem discover_grows (d : BrokerDiscoverer) (w : SharedBroker) :
    w.Grows (d.discover client w).2 := by
  have hsubscribed := subscribed_grows d w
  unfold BrokerDiscoverer.discover
  split
  · exact Grows.refl w
  split
  next hr => rwa [hr] at hsubscribed
  next hr => rwa [hr] at hsubscribed
  next names w' _ hr =>
    rw [hr] at hsubscribed
    have hlist : w'.Grows (client.listPartitions names w').2 :=
      answer_grows (MemoryBroker.listPartitions_keeps names) w'
    split
    next hr => exact hsubscribed.trans (by rwa [hr] at hlist)
    next hr => exact hsubscribed.trans (by rwa [hr] at hlist)

/-- Apart from commits, a connector only lets time pass at the broker. -/
theorem components_moves : components.Moves Grows where
  refl := Grows.refl
  trans h h' := h.trans h'
  start _ w := Grows.refl w
  discover := discover_grows
  mark _ _ w := Grows.refl w
  closeDiscoverer _ w := Grows.refl w
  close w := answer_grows (fun _ => ⟨rfl, rfl⟩) w

end SharedBroker

/-- Fetching from a broker satisfies the law of delivery, if the logs grow from those of `b` on and do
not outgrow the offsets. -/
theorem FetchTrace.Delivery.law (b : MemoryBroker) :
    FetchLaw SharedBroker.components
      (fun w => b.Extends w.broker ∧ w.broker.CommitsPositions)
      (fun s t => b.Extends t.run.world.broker ∧ (t.run.world.broker.Fits → t.Delivery s))
      SharedBroker.Grows where
  moves := SharedBroker.components_moves
  fresh hw hgrows := ⟨hw.1.trans hgrows.logs, hgrows.commitsPositions hw.2⟩
  begin settings hw hs := ⟨hw.1, fun _ => .begin settings hs hw.2⟩
  step {_ t} ht now := by
    have hstep :=
      FetchLoop.step_cases SharedBroker.client now t.run.loop t.run.fetcher t.run.world
    have hlogs := hstep.grows.logs
    exact ⟨ht.1.trans hlogs, fun hfits => (ht.2 (hfits.of_extends hlogs)).of_step hstep hfits⟩
  copy ht := ⟨ht.1, fun hfits => (ht.2 hfits).copied⟩
  add ht found := ⟨ht.1, fun hfits => (ht.2 hfits).added found⟩
  cancel ht := ⟨ht.1, fun hfits => (ht.2 hfits).cancelled⟩
  move ht hgrows := ⟨ht.1.trans hgrows.logs, fun hfits =>
    have d := ht.2 (hfits.of_extends hgrows.logs)
    d.inWorld hgrows.logs (hgrows.commitsPositions d.committed)⟩
  commit {s t copied positions} ht hc hp :=
    have hlogs := SharedBroker.commit_extends positions t.run.world
    ⟨ht.1.trans hlogs, fun hfits => (ht.2 (hfits.of_extends hlogs)).committing hc hp⟩

namespace Session

/-- A session with a broker whose logs grew from those of `b` on. -/
def Delivering (b : MemoryBroker) (s : Session BrokerDiscoverer SharedBroker) : Prop :=
  s.Sound (fun w => b.Extends w.broker ∧ w.broker.CommitsPositions)
    fun o t => b.Extends t.run.world.broker ∧ (t.run.world.broker.Fits → t.Delivery o)

variable {s : Session BrokerDiscoverer SharedBroker}

theorem delivering_of_created {config : SourceConfig} {index count : UInt64}
    {c : Connector BrokerDiscoverer} (hc : Connector.create config index count = .ok c)
    {w : SharedBroker} (hw : w.broker.CommitsPositions) (actions : List SessionAction) :
    ((start c w).performAll SharedBroker.components actions).Delivering w.broker := by
  obtain ⟨hvalid, t, -, rfl⟩ := Connector.create_ok hc
  have hstart : Delivering w.broker (start { config := config, subtask := t } w) :=
    Sound.start hvalid (fun _ hr => nomatch hr) rfl rfl (fun _ => rfl)
      ⟨MemoryBroker.Extends.refl _, hw⟩
  exact hstart.performAll (FetchTrace.Delivery.law w.broker) actions

/-- Offsets become pending only where they are committed when checkpoints complete. -/
theorem Delivering.commitMode_of_pending {b : MemoryBroker} (h : s.Delivering b) {id : UInt64}
    {offsets : OffsetMap} (hpending : s.connector.pending.get? id = some offsets) :
    s.connector.config.commitMode = .onCheckpoints := by
  rcases h.stage with u | ⟨f, o⟩
  · cases (u.pending id).symm.trans hpending
  · exact (o.pending id offsets hpending).1

theorem Delivering.extends {b : MemoryBroker} (h : s.Delivering b) : b.Extends s.world.broker := by
  rcases h.stage with u | ⟨f, o⟩
  · exact u.world.1
  · exact o.trace.1

theorem Delivering.delivery {b : MemoryBroker} (h : s.Delivering b) (hfits : s.world.broker.Fits)
    {f : Fetcher} (hf : s.connector.fetcher = some f) :
    (s.trace f).Delivery s.connector.subscribed :=
  (h.trace_of_fetcher hf).2 hfits

theorem Delivering.recordsOf_eq {b : MemoryBroker} (h : s.Delivering b)
    (hfits : s.world.broker.Fits) (p : Partition) : s.recordsOf p = s.history.recordsFrom p := by
  rcases h.stage with u | ⟨f, o⟩
  · rw [recordsOf, u.history]
    rfl
  · exact FetchHistory.filter_records
      (fun q r hr => (o.trace.2 hfits).partition_of_emitted hr) p

/-- The first records of a partition with a concrete offset: as many as the offset tells. -/
theorem Delivering.recordsOf_of_concrete {b : MemoryBroker} (h : s.Delivering b)
    (hfits : s.world.broker.Fits) {f : Fetcher} (hf : s.connector.fetcher = some f) {p : Partition}
    {last : Int64} (hp : f.offsets.get? p = some (.concrete last)) :
    ∃ start : Nat, s.history.start s.connector.subscribed p = some (start : Int) ∧
      last.toInt + 1 = (start + (s.recordsOf p).length : Nat) ∧
      Stretch (s.world.broker.log p) p start (s.recordsOf p) := by
  obtain ⟨start, hstart, hcount, hdone⟩ := (h.delivery hfits hf).offset p last hp
  rw [h.recordsOf_eq hfits]
  exact ⟨start, hstart, hcount, hdone⟩

/-- A session that was restored goes on after each restored offset. -/
theorem Delivering.recordsOf_of_restored {b : MemoryBroker} (h : s.Delivering b)
    (hfits : s.world.broker.Fits) {restored : OffsetState}
    (hr : s.connector.restored = some restored) {p : Partition} {last : Int64}
    (hp : restored.get? p = some (.concrete last))
    (hcovers : s.connector.config.topics.covers p.topic = true)
    (hown : s.connector.subtask.owns p = true) {start : Nat} (hstart : last.toInt + 1 = start) :
    Stretch (s.world.broker.log p) p start (s.recordsOf p) := by
  rw [h.recordsOf_eq hfits]
  rcases h.stage with u | ⟨f, o⟩
  · rw [u.history]
    exact Stretch.nil start
  · obtain ⟨owned, hmerged, -⟩ := o.merged
    have hkept : s.connector.Kept restored p :=
      ⟨SortedMap.contains_eq_true_iff.mpr ⟨_, hp⟩, Or.inr hcovers⟩
    have hlast : s.connector.subscribed.get? p = some (.concrete last) := by
      rw [hmerged, Connector.get?_merge_of_kept hr owned hown hkept, hp]
    exact (o.trace.2 hfits).stretch_of_concrete hlast hstart

/-- Exactly once across a snapshot. Whatever happens before the snapshot of one connector and after its
restoration into another one, which partitions others own, what fails, how batches are cut, and what
others append: the records of a partition that the first connector emitted, followed by those that the
second one emitted, are consecutive records of its log, from the position on at which the first one
started. The partition has to have an offset in the snapshot, whose counts have to fit into its fields,
and the second connector has to be subscribed to the partition and to own it. -/
theorem restored_continues {config₁ config₂ : SourceConfig} {index₁ count₁ index₂ count₂ : UInt64}
    {c₁ c₂ c' : Connector BrokerDiscoverer} {w₁ w₂ : SharedBroker}
    {s₁ s₂ : Session BrokerDiscoverer SharedBroker} {actions₁ actions₂ : List SessionAction}
    {id : UInt64} {bytes : Bytes} {p : Partition} {last : Int64}
    (hc₁ : Connector.create config₁ index₁ count₁ = .ok c₁)
    (hc₂ : Connector.create config₂ index₂ count₂ = .ok c₂)
    (hw₁ : w₁.broker.CommitsPositions) (hw₂ : w₂.broker.CommitsPositions)
    (hs₁ : s₁ = (start c₁ w₁).performAll SharedBroker.components actions₁)
    (hsnapshot : s₁.connector.snapshot id = (.ok bytes, c'))
    (hcount : OffsetState.Countable s₁.connector.currentState)
    (hlogs : s₁.world.broker.Extends w₂.broker)
    (hs₂ : s₂ = (start c₂ w₂).performAll SharedBroker.components (.restore bytes :: actions₂))
    (hkept : ∀ a ∈ actions₂, a.isRestore = false) (hfits : s₂.world.broker.Fits)
    (hp : s₁.connector.currentState.get? p = some (.concrete last))
    (hcovers : config₂.topics.covers p.topic = true) (hown : c₂.subtask.owns p = true) :
    (c₂.restore bytes).1 = .ok () ∧
      ∃ first : Nat, s₁.history.start s₁.connector.subscribed p = some (first : Int) ∧
        ∀ (i : Nat) (r : Record), (s₁.recordsOf p ++ s₂.recordsOf p)[i]? = some r →
          r.offset.toInt = (first : Int) + i ∧
            (s₂.world.broker.log p)[first + i]? = some r.payload := by
  obtain ⟨f, hf, rfl⟩ := Connector.snapshot_ok hsnapshot
  have hlive : s₁.connector.currentState = f.offsets := Connector.currentState_of_fetcher hf
  rw [hlive] at hcount hp
  have hd₁ : s₁.Delivering w₁.broker := hs₁ ▸ delivering_of_created hc₁ hw₁ actions₁
  have hd₂ : s₂.Delivering w₂.broker := hs₂ ▸ delivering_of_created hc₂ hw₂ _
  -- Logs only grow, so those of the first connector fit as well.
  have hgrown := hlogs.trans hd₂.extends
  have hfits₁ : s₁.world.broker.Fits := hfits.of_extends hgrown
  -- The snapshot can be read back, as none of its offsets lies before a log.
  have hdelivery := hd₁.delivery hfits₁ hf
  have hstorable : OffsetState.Storable f.offsets :=
    (hdelivery.regular.grounded hdelivery.grounded).offsets
  obtain ⟨hphase, hconfig⟩ : c₂.phase = .created ∧ c₂.config = config₂ := by
    obtain ⟨-, t, -, rfl⟩ := Connector.create_ok hc₂
    exact ⟨rfl, rfl⟩
  have hrestore := Connector.restore_ok hphase (Snapshot.read_write hcount hstorable)
  have hbase : Connector.SameBase { c₂ with restored := some f.offsets } s₂.connector := by
    have hsame := performAll_base SharedBroker.components
      (start (c₂.restore (Snapshot.write f.offsets)).2 w₂) hkept
    rw [hrestore] at hsame
    subst hs₂
    change Connector.SameBase _ ((start (c₂.restore _).2 w₂).performAll _ actions₂).connector
    rw [hrestore]
    exact hsame
  -- The offset in the snapshot is where the one stretch ends and the other one begins.
  obtain ⟨first, hfirst, hnext, hdone₁⟩ := hd₁.recordsOf_of_concrete hfits₁ hf hp
  have hcovers : s₂.connector.config.topics.covers p.topic = true := by
    rw [hbase.config, hconfig]
    exact hcovers
  have hown : s₂.connector.subtask.owns p = true := by
    rw [hbase.subtask]
    exact hown
  have hdone₂ := hd₂.recordsOf_of_restored hfits hbase.restored hp hcovers hown hnext
  refine ⟨congrArg Prod.fst hrestore, first, hfirst, fun i r hr => ?_⟩
  exact (((hdone₁.mono (hgrown p)).append hdone₂).getElem? hr).2

end Session

end CheckpointedLog

namespace CheckpointedLog.Session

open scoped Pattern

/-- The first connector emitted one of two records that it had polled. The second one, restored from its
snapshot, emits the other record and one that was appended in the meantime, one by one. -/
theorem restored_continues_within_batch :
    let p : Partition := ⟨"t", 0⟩
    let b : MemoryBroker := ((MemoryBroker.ofMaxBatch 2).createTopic "t" 1).append p [[10], [11]]
    let config : SourceConfig := { topics := .list ["t"], startup := .earliest }
    let c₁ : Connector BrokerDiscoverer := { config := config, subtask := .single }
    let c₂ : Connector BrokerDiscoverer := { config := config, subtask := ⟨0, 2, by decide⟩ }
    let w : SharedBroker := ⟨{ b with maxBatch := 1 }, [[], [.append p [[12]]]]⟩
    let bytes : Bytes :=
      [0xA5, 0x5E, 0, 1, 0, 0, 0, 1, 0, 0, 0, 1, 0x74, 0, 0, 0, 0, 0, 0, 0, 0, 0, 0, 0, 0]
    let s₁ := (start c₁ ⟨b, []⟩).performAll SharedBroker.components
      (.open :: .run :: List.replicate 6 (.fetch 0))
    let s₂ := (start c₂ w).performAll SharedBroker.components
      (.restore bytes :: .open :: .run :: List.replicate 11 (.fetch 0))
    (s₁.connector.snapshot 1).1 = .ok bytes ∧
      s₁.recordsOf p = [⟨p, 0, [10]⟩] ∧ s₂.recordsOf p = [⟨p, 1, [11]⟩, ⟨p, 2, [12]⟩] ∧
      (c₂.restore bytes).1 = .ok () ∧
      ∃ first : Nat, s₁.history.start s₁.connector.subscribed p = some (first : Int) ∧
        ∀ (i : Nat) (r : Record), (s₁.recordsOf p ++ s₂.recordsOf p)[i]? = some r →
          r.offset.toInt = (first : Int) + i ∧
            (s₂.world.broker.log p)[first + i]? = some r.payload := by
  intro p b config c₁ c₂ w bytes s₁ s₂
  have hentries : s₁.connector.currentState.entries = [(p, .concrete 0)] := by
    simp only [p, b, config, c₁, s₁]
    rfl
  have hbytes : (s₁.connector.snapshot 1).1 = .ok bytes := by
    simp only [p, b, config, c₁, s₁, bytes]
    rfl
  have hfirst : s₁.recordsOf p = [⟨p, 0, [10]⟩] := by
    simp only [p, b, config, c₁, s₁]
    rfl
  have hsecond : s₂.recordsOf p = [⟨p, 1, [11]⟩, ⟨p, 2, [12]⟩] := by
    simp only [p, b, config, c₂, w, s₂, bytes]
    decide +kernel
  have hlogs : s₁.world.broker.Keeps w.broker := by
    simp only [p, b, config, c₁, s₁, w]
    exact ⟨rfl, rfl⟩
  have hfits : s₂.world.broker.topics.entries = [("t", [[[10], [11], [12]]])] := by
    simp only [p, b, config, c₂, w, s₂, bytes]
    decide +kernel
  have hc₁ : Connector.create config 0 1 = .ok c₁ := by
    simp only [config, c₁]
    rfl
  have hc₂ : Connector.create config 0 2 = .ok c₂ := by
    simp only [config, c₂]
    rfl
  have hb : b.CommitsPositions := by
    intro q n hn
    cases hn
  have hw : w.broker.CommitsPositions := hb
  have hcovers : config.topics.covers p.topic = true := by
    simp only [p, config]
    rfl
  have hown : c₂.subtask.owns p = true := by
    simp only [p, c₂]
    decide +kernel
  have hs₁ : s₁ = (start c₁ ⟨b, []⟩).performAll SharedBroker.components
      (.open :: .run :: List.replicate 6 (.fetch 0)) := rfl
  have hs₂ : s₂ = (start c₂ w).performAll SharedBroker.components
      (.restore bytes :: .open :: .run :: List.replicate 11 (.fetch 0)) := rfl
  -- From here on the runs are not to be evaluated again.
  clear_value s₁ s₂ c₁ c₂ w b config
  have hcount : OffsetState.Countable s₁.connector.currentState := by
    apply OffsetState.countable_of_entries
    · rw [hentries]
      decide
    · rw [hentries]
      decide
  have hp : s₁.connector.currentState.get? p = some (.concrete 0) :=
    SortedMap.get?_eq_some_iff.mpr (hentries ▸ List.mem_singleton_self _)
  have hfits : s₂.world.broker.Fits := MemoryBroker.fits_of_entries (by rw [hfits]; decide)
  exact ⟨hbytes, hfirst, hsecond, restored_continues hc₁ hc₂ hb hw hs₁
    (Prod.ext hbytes rfl) hcount hlogs.extends hs₂ (by decide) hfits hp hcovers hown⟩

end CheckpointedLog.Session
