import CheckpointedLog.Pattern.Reader
import CheckpointedLog.Proofs.Connector.Commits
import CheckpointedLog.Proofs.Connector.Recovery
import CheckpointedLog.Proofs.Connector.Subscription
import CheckpointedLog.Proofs.Fetch.Start

/-!
Two ways to go on after a checkpoint: a new connector is restored from the snapshot, or it reads from
where the group committed. A snapshot has last offsets, a commit has the positions after them, and a
resolved position is turned into the offset before it. Both ways come to the same position.
-/
namespace CheckpointedLog

namespace SharedBroker

/-- The logs may have grown, and the group may have committed, but no negative positions. -/
structure Continues (w w' : SharedBroker) : Prop where
  logs : w.broker.Extends w'.broker
  committed : w'.broker.CommitsPositions

theorem turn_commitCount (w : SharedBroker) : w.turn.broker.commitCount = w.broker.commitCount := by
  apply turn_keeps (P := fun b => b.commitCount = w.broker.commitCount) _ rfl
  intro b c h
  cases c <;> exact h

theorem commit_of_counted {positions : OffsetMap} {w : SharedBroker}
    (h : (client.commit positions w).2.broker.commitCount ≠ w.broker.commitCount) {p : Partition}
    {n : Position} (hn : positions.get? p = some n) :
    (client.commit positions w).2.broker.committed.get? p = some n := by
  -- The others commit nothing in their turn, so it is this commit that was counted.
  have hcount : (w.turn.broker.commit positions).2.commitCount ≠ w.turn.broker.commitCount := by
    rw [turn_commitCount]
    exact h
  change (w.turn.broker.commit positions).2.committed.get? p = some n
  unfold MemoryBroker.commit at hcount ⊢
  split
  next hfails =>
    rw [hfails] at hcount
    exact absurd rfl hcount
  next => rw [SortedMap.get?_union, hn, Option.some_or]

end SharedBroker

variable [Libraries]

/-- Fetching starts to read a partition at the position `n`, if it begins where the group committed
`n`. -/
theorem FetchTrace.StartsAt.law (p : Partition) {last : Int64} {n : Position}
    (hn : Position.after? last = some n) :
    FetchLaw SharedBroker.components (fun w => w.broker.committed.get? p = some n)
      (fun s t => t.Consistent s ∧ (s.ComesWith p last → t.StartsAt p n)) SharedBroker.Grows where
  moves := SharedBroker.components_moves
  fresh hw hgrows := (congrArg (SortedMap.get? · p) hgrows.committed).trans hw
  begin {w s} settings hw _ := ⟨.begin ⟨settings, s, false⟩ w, fun _ => .begin settings hw⟩
  step {_ t} a now :=
    have hstep :=
      FetchLoop.step_cases SharedBroker.client now t.run.loop t.run.fetcher t.run.world
    ⟨a.1.of_step hstep, fun hs => (a.2 hs).of_step a.1 hs hn hstep⟩
  copy a := ⟨a.1.copied, fun hs => (a.2 hs).copied⟩
  add a found := ⟨a.1.added .earliest found, fun hs => (a.2 hs).added found⟩
  cancel a := ⟨a.1.cancelled, fun hs => (a.2 hs).cancelled⟩
  move a hgrows := ⟨a.1.inWorld _, fun hs =>
    (a.2 hs).inWorld fun _ => congrArg (SortedMap.get? · p) hgrows.committed⟩
  commit a hc hp := ⟨a.1.inWorld _, fun hs => (a.2 hs).committing a.1 hs hc hp⟩

namespace Session

/-- The connector `c` returned the snapshot of `copied` for the checkpoint `id`, and later this
checkpoint was completed and the broker counted a commit. In between no other snapshot was returned for
it. Others could append records and commit positions at any time. -/
inductive Checkpointed (c : Connector BrokerDiscoverer) (w : SharedBroker) (id : UInt64)
    (copied : OffsetState) : Session BrokerDiscoverer SharedBroker → Prop where
  | completed {s₁ s₂ : Session BrokerDiscoverer SharedBroker} {place place' : Nat}
      (run : Interleaves SharedBroker.components SharedBroker.Continues (fun _ _ => True)
        (start c w) s₁)
      (returned : s₁.snapshots[place]? = some (id, some copied))
      (waits : Interleaves SharedBroker.components SharedBroker.Continues
        (fun t a => ∀ bytes, t.returned? a ≠ some (id, bytes))
        (s₁.perform SharedBroker.components (.endSnapshot place)) s₂)
      (completes : s₂.completions[place']? = some id)
      (counted : (s₂.perform SharedBroker.components
        (.commitPending place')).world.broker.commitCount ≠ s₂.world.broker.commitCount) :
      Checkpointed c w id copied (s₂.perform SharedBroker.components (.commitPending place'))

/-- A session of a new connector that starts where the group committed, at a broker where nothing was
committed since the world `w`. -/
inductive StartedFromGroup (w : SharedBroker) : Session BrokerDiscoverer SharedBroker → Prop where
  | started {config : SourceConfig} {index count : UInt64} {c : Connector BrokerDiscoverer}
      {w' : SharedBroker} {s : Session BrokerDiscoverer SharedBroker}
      (created : Connector.create config index count = .ok c) (mode : config.startup = .groupOffsets)
      (grows : w.Grows w')
      (run : Interleaves SharedBroker.components SharedBroker.Grows (fun _ a => a.isRestore = false)
        (start c w') s) : StartedFromGroup w s

/-- A session of a new connector that was restored from the bytes of a snapshot, at a broker where
nothing was committed since the world `w`. -/
inductive RestoredFrom (bytes : Bytes) (w : SharedBroker) :
    Session BrokerDiscoverer SharedBroker → Prop where
  | restored {config : SourceConfig} {index count : UInt64} {c : Connector BrokerDiscoverer}
      {w' : SharedBroker} {s : Session BrokerDiscoverer SharedBroker}
      (created : Connector.create config index count = .ok c) (grows : w.Grows w')
      (run : Interleaves SharedBroker.components SharedBroker.Grows (fun _ a => a.isRestore = false)
        ((start c w').perform SharedBroker.components (.restore bytes)) s) : RestoredFrom bytes w s

/-- The session reads the partition from the position `n` on. -/
structure ReadsFrom (p : Partition) (n : Position)
    (s : Session BrokerDiscoverer SharedBroker) : Prop where
  /-- Before the first record, this is the position from which the partition is polled. -/
  position : ∀ m, s.fetch.positions.get? p = some m → s.recordsOf p = [] → m = n
  /-- When the fetch loop comes to the partition for the first time, and the broker knows it, this is
  the position that it finds, or that it is about to record. -/
  found : ∀ now round todo, s.isRunning = true → s.fetch.stage = .positioning round (p :: todo) →
    s.fetch.positions.contains p = false → s.recordsOf p = [] →
    (s.world.turn.broker.log? p).isSome = true →
    let next := (s.perform SharedBroker.components (.fetch now)).fetch
    next.positions.get? p = some n ∨ next.stage = .recording round todo p n
  resolved : ∀ m, .resolved p m ∈ s.history → m = n
  records : Stretch (s.world.broker.log p) p n.toInt.toNat (s.recordsOf p)
  /-- A partition that began with an offset, or was resolved, has the offset of its last record as its
  entry, or the one before the position. -/
  entry : s.connector.subscribed.get? p ≠ some .groupCommitted ∨ s.history.resolutions p ≠ [] →
    ∃ x, s.connector.currentState.get? p = some (.concrete x) ∧
      x.toInt + 1 = n.toInt + (s.recordsOf p).length

variable {δ ω : Type} {s s' : Session BrokerDiscoverer SharedBroker} {c : Connector BrokerDiscoverer}
  {w : SharedBroker} {id : UInt64} {copied : OffsetState} {p : Partition} {last : Int64} {n : Position}
  {allowed : Session BrokerDiscoverer SharedBroker → SessionAction → Prop}

theorem Delivering.of_continues {b : MemoryBroker} (h : s.Delivering b)
    (hr : Interleaves SharedBroker.components SharedBroker.Continues allowed s s') :
    s'.Delivering b := by
  apply h.of_interleaves (FetchTrace.Delivery.law b) hr
  · exact fun w w' hw hJ => ⟨hJ.1.trans hw.logs, hw.committed⟩
  · exact fun o t w hw ht => ⟨ht.1.trans hw.logs, fun hfits =>
      (ht.2 (hfits.of_extends hw.logs)).inWorld hw.logs hw.committed⟩

/-- The offsets of the snapshot were copied, and nothing else is pending for its checkpoint. -/
structure Remembers (id : UInt64) (copied : OffsetState) (s : Session BrokerDiscoverer SharedBroker) :
    Prop where
  wasCopied : .copied copied ∈ s.history
  pending : s.connector.config.commitMode = .onCheckpoints → ∀ offsets,
    s.connector.pending.get? id = some offsets → offsets = OffsetState.concreteOffsets copied

theorem Remembers.perform (h : s.Remembers id copied) {a : SessionAction}
    (ha : ∀ bytes, s.returned? a ≠ some (id, bytes)) :
    (s.perform SharedBroker.components a).Remembers id copied := by
  have hstep := perform_step SharedBroker.components_moves s a
  refine ⟨hstep.history_subset h.wasCopied, fun hmode offsets ho => ?_⟩
  rw [hstep.base.1] at hmode
  -- Offsets become pending for a checkpoint only when a snapshot is returned for it.
  rcases hstep.pending ho with ⟨hbefore, -⟩ | ⟨other, -, -, hreturned, -⟩
  · exact h.pending hmode offsets hbefore
  · exact absurd hreturned (ha _)

theorem remembers_endSnapshot {place : Nat} (hplace : s.snapshots[place]? = some (id, some copied))
    (hcopied : .copied copied ∈ s.history) :
    (s.perform SharedBroker.components (.endSnapshot place)).Remembers id copied := by
  have hended : s.perform SharedBroker.components (.endSnapshot place) = { s with
      connector := (s.connector.endSnapshot id copied).2
      snapshots := s.snapshots.eraseIdx place } := by
    simp only [perform, endSnapshot, hplace]
  rw [hended]
  refine ⟨hcopied, fun hmode offsets ho => ?_⟩
  have hmode : s.connector.config.commitMode = .onCheckpoints := hmode
  simp only [Connector.endSnapshot, hmode, if_true] at ho
  rcases PendingCheckpoints.get?_remember ho with ⟨-, he⟩ | ⟨hne, -⟩
  · exact he
  · exact absurd rfl hne

namespace Checkpointed

variable {config : SourceConfig} {index count : UInt64}

/-- Before the checkpoint was completed, at most the offsets of its snapshot were pending for it. -/
theorem exists_remembers (h : Checkpointed c w id copied s)
    (hc : Connector.create config index count = .ok c) (hw : w.broker.CommitsPositions) :
    ∃ s₂ place, s₂.Delivering w.broker ∧ Remembers id copied s₂ ∧ s₂.completions[place]? = some id ∧
      s = s₂.perform SharedBroker.components (.commitPending place) ∧
      s.world.broker.commitCount ≠ s₂.world.broker.commitCount := by
  cases h with
  | @completed s₁ s₂ place place' run returned waits completes counted =>
    have law := FetchTrace.Delivery.law w.broker
    have hstart : (start c w).Delivering w.broker := delivering_of_created hc hw []
    have hrun : s₁.Delivering w.broker := hstart.of_continues run
    have hended := hrun.perform law (.endSnapshot place)
    have hcopied := hrun.copied_of_snapshots (List.mem_of_getElem? returned)
    refine ⟨s₂, place', Delivering.of_continues hended waits, ?_, completes, rfl, counted⟩
    -- From the return of the snapshot on, by induction on what happens until it is completed.
    exact waits.keeps (remembers_endSnapshot returned hcopied)
      (fun t a ha ht => ht.perform ha) fun t w _ ht => ⟨ht.wasCopied, ht.pending⟩

/-- What was committed is the position after each offset of the snapshot. -/
theorem exists_position (h : Checkpointed c w id copied s)
    (hc : Connector.create config index count = .ok c) (hw : w.broker.CommitsPositions)
    (hp : copied.get? p = some (.concrete last)) :
    ∃ n, Position.after? last = some n ∧ s.world.broker.committed.get? p = some n := by
  obtain ⟨s₂, place, hdelivering, hremembers, hplace, rfl, hcounted⟩ := h.exists_remembers hc hw
  obtain ⟨w', hcommit, hw'⟩ :=
    Connector.commitPending_cases SharedBroker.client id s₂.connector s₂.world
  have hworld : (s₂.perform SharedBroker.components (.commitPending place)).world = w' := by
    simp only [perform, commitPending, hplace, SharedBroker.components, hcommit]
  rw [hworld] at hcounted ⊢
  rcases hw' with rfl | ⟨offsets, positions, hcompletes, rfl⟩
  · exact absurd rfl hcounted
  · -- What is committed are the positions after the offsets of the snapshot.
    have hmode := hdelivering.commitMode_of_pending hcompletes.pending
    obtain rfl := hremembers.pending hmode offsets hcompletes.pending
    have hlast : (OffsetState.concreteOffsets copied).get? p = some last := by
      rw [OffsetState.get?_concreteOffsets, hp]
      rfl
    obtain ⟨n, hn, hafter⟩ := Fetcher.exists_of_positionsAfter hcompletes.positions hlast
    exact ⟨n, hafter, SharedBroker.commit_of_counted hcounted hn⟩

/-- The snapshot can be read back, and the group committed no negative position. -/
theorem storable (h : Checkpointed c w id copied s)
    (hc : Connector.create config index count = .ok c) (hw : w.broker.CommitsPositions)
    (hfits : s.world.broker.Fits) :
    copied.Storable ∧ s.world.broker.CommitsPositions := by
  obtain ⟨s₂, place, hdelivering, hremembers, -, rfl, -⟩ := h.exists_remembers hc hw
  have hstep := perform_step SharedBroker.components_moves s₂ (.commitPending place)
  have hcopied := hstep.history_subset hremembers.wasCopied
  have hnext := hdelivering.perform (FetchTrace.Delivery.law w.broker) (.commitPending place)
  rcases hnext.stage with u | ⟨f, o⟩
  · -- Nothing is copied before an opening.
    rw [u.history] at hcopied
    cases hcopied
  · have d := o.trace.2 hfits
    exact ⟨d.copies copied hcopied, d.committed⟩

end Checkpointed

/-- Records are only appended, whatever a session does. -/
theorem Step.extends {s s' : Session BrokerDiscoverer SharedBroker} {a : SessionAction}
    (h : s.Step SharedBroker.components SharedBroker.Grows a s') :
    s.world.broker.Extends s'.world.broker := by
  cases h with
  | opened _ hmove | openFailed hmove | closed hmove | searched _ _ hmove => exact hmove.logs
  | @fetched now f =>
    exact (FetchLoop.step_cases SharedBroker.client now s.fetch f s.world).grows.logs
  | completed _ hw =>
    rcases hw with rfl | ⟨_, positions, -, rfl⟩
    · exact .refl _
    · exact SharedBroker.commit_extends positions s.world
  | idle | restored | begun | tracked | discoveryEnded | finished | failed | snapshotBegun | copied
  | snapshotEnded | completionBegun | cancelled => exact .refl _

theorem Interleaves.extends (hr : Interleaves SharedBroker.components SharedBroker.Grows allowed s s') :
    s.world.broker.Extends s'.world.broker := by
  apply hr.keeps (P := fun t => s.world.broker.Extends t.world.broker) (.refl _)
  · exact fun t a _ ht => ht.trans (perform_step SharedBroker.components_moves t a).extends
  · exact fun t w hw ht => ht.trans hw.logs

theorem Step.subscribed_eq_empty {parts : Components δ ω} {G : ω → ω → Prop} {s s' : Session δ ω}
    {a : SessionAction} (hstep : s.Step parts G a s')
    (h : s.connector.fetcher = none → s.connector.subscribed = .empty)
    (hf : s'.connector.fetcher = none) : s'.connector.subscribed = .empty := by
  cases hstep with
  | opened | fetched => cases hf
  | failed | cancelled | closed | tracked => exact h (Option.map_eq_none_iff.mp hf)
  | searched _ _ _ hfetcher =>
    rcases hfetcher with ⟨rfl, -⟩ | ⟨rfl, -⟩
    · exact h hf
    · exact h (Option.map_eq_none_iff.mp hf)
  | idle | restored | openFailed | begun | discoveryEnded | finished | snapshotBegun | copied
  | snapshotEnded | completionBegun | completed => exact h hf

/-- A session that started at a partition's position reads it from there on. -/
theorem Delivering.readsFrom {b : MemoryBroker} (hd : s.Delivering b) (hfits : s.world.broker.Fits)
    (hn : Position.after? last = some n) {J : SharedBroker → Prop}
    (hs : s.Sound J fun o t => t.Consistent o ∧ (o.ComesWith p last → t.StartsAt p n)) {f : Fetcher}
    (hf : s.connector.fetcher = some f) (hcomes : s.connector.subscribed.ComesWith p last) :
    s.ReadsFrom p n := by
  obtain ⟨c, hstarts⟩ := hs.trace_of_fetcher hf
  have a := hstarts hcomes
  have d := hd.delivery hfits hf
  have hrecords : s.recordsOf p = s.history.recordsFrom p := hd.recordsOf_eq hfits p
  -- What delivery says of the records it says from the start of the partition on.
  have hstart {start : Nat} (h : s.history.start s.connector.subscribed p = some (start : Int)) :
      (start : Int) = n.toInt := a.start_eq hcomes hn h
  constructor
  case position =>
    intro m hm hnone
    exact a.position m hm (hrecords ▸ hnone)
  case found =>
    intro now round todo hrun hl hpositions hnone hlog
    have hstep := FetchLoop.step_cases SharedBroker.client now s.fetch f s.world
    have hnext : (s.perform SharedBroker.components (.fetch now)).fetch =
        (s.fetch.step SharedBroker.client now f s.world).1 := by
      simp only [perform, hrun, hf]
      rfl
    rw [hnext]
    exact a.positioned c hcomes hn (hrecords ▸ hnone) hl hpositions hlog hstep
  case resolved => exact a.resolved
  case records =>
    -- The last record that was emitted, if there is one, ends a stretch from the start on.
    rw [hrecords]
    cases hr : (s.history.recordsFrom p).getLast? with
    | none =>
      rw [List.getLast?_eq_none_iff.mp hr]
      exact .nil _
    | some r =>
      obtain ⟨start, hfirst, hdone⟩ := d.stretch_of_getLast? hr
      rw [← hstart hfirst]
      exact hdone
  case entry =>
    intro hknown
    obtain ⟨x, hx⟩ := FetchTrace.StartsAt.exists_offset c hcomes (hknown.imp_left hcomes.resolve_right)
    obtain ⟨start, hfirst, hcount, -⟩ := d.offset p x hx
    refine ⟨x, (congrArg (SortedMap.get? · p) (Connector.currentState_of_fetcher hf)).trans hx, ?_⟩
    rw [hrecords, ← hstart hfirst]
    exact hcount

/-- The entry of a partition is told by its first position and the number of its records. -/
theorem ReadsFrom.entry_eq (h : s.ReadsFrom p n) (h' : s'.ReadsFrom p n)
    (hknown : s.connector.subscribed.get? p ≠ some .groupCommitted ∨ s.history.resolutions p ≠ [])
    (hknown' : s'.connector.subscribed.get? p ≠ some .groupCommitted ∨ s'.history.resolutions p ≠ [])
    (hlength : (s.recordsOf p).length = (s'.recordsOf p).length) :
    s.connector.currentState.get? p = s'.connector.currentState.get? p := by
  obtain ⟨x, hx, hxn⟩ := h.entry hknown
  obtain ⟨y, hy, hyn⟩ := h'.entry hknown'
  have hxy : x = y := Int64.toInt_inj.mp (by omega)
  rw [hx, hy, hxy]

theorem subscribed_eq_empty {R : SharedBroker → SharedBroker → Prop} {w : SharedBroker}
    (hc : c.fetcher = none → c.subscribed = .empty)
    (hr : Interleaves SharedBroker.components R allowed (start c w) s) :
    s.connector.fetcher = none → s.connector.subscribed = .empty := by
  apply hr.keeps (P := fun t => t.connector.fetcher = none → t.connector.subscribed = .empty) hc
  · intro t a _ ht
    exact (perform_step SharedBroker.components_moves t a).subscribed_eq_empty ht
  · exact fun _ _ _ ht => ht

/-- At a broker where the group committed `n`, a new session reads from there what comes with the group's
sentinel, or with the offset before it. -/
theorem of_create_startsAt {config : SourceConfig} {index count : UInt64}
    {c : Connector BrokerDiscoverer} (created : Connector.create config index count = .ok c)
    {w w' : SharedBroker} (grows : w.Grows w') (hcommitted : w.broker.committed.get? p = some n)
    (last : Int64) :
    (start c w').Sound (fun w => w.broker.committed.get? p = some n)
      fun o t => t.Consistent o ∧ (o.ComesWith p last → t.StartsAt p n) :=
  .of_create created ((congrArg (SortedMap.get? · p) grows.committed).trans hcommitted)

/-- What a connector without restored offsets tracks since its opening came with the group's
sentinel. -/
theorem StartedFromGroup.readsFrom (h : s.StartedFromGroup w) (hw : w.broker.CommitsPositions)
    (hfits : s.world.broker.Fits) (hn : Position.after? last = some n)
    (hcommitted : w.broker.committed.get? p = some n)
    (hp : s.connector.subscribed.contains p = true) :
    s.ReadsFrom p n := by
  cases h with
  | @started config _ _ c w' _ created mode grows run =>
    have hs := (of_create_startsAt created grows hcommitted last).of_moves
      (FetchTrace.StartsAt.law p hn) run
    have hd : s.Delivering w'.broker :=
      (delivering_of_created created (grows.commitsPositions hw) []).of_moves
        (FetchTrace.Delivery.law _) run
    have hbase := run.base fun _ _ ha => ha
    obtain ⟨-, t, -, rfl⟩ := Connector.create_ok created
    rcases hs.stage with u | ⟨f, o⟩
    · rw [subscribed_eq_empty (fun _ => rfl) run u.fetcher] at hp
      cases hp
    · -- Nothing was restored, so that all owned partitions came with the offset of the startup mode.
      obtain ⟨owned, hmerged, -⟩ := o.merged
      have hconfig : s.connector.config = config := hbase.config
      have hget : s.connector.subscribed.get? p = some .groupCommitted := by
        obtain ⟨o, ho⟩ := SortedMap.contains_eq_true_iff.mp hp
        rw [hmerged, Connector.get?_merge_fresh hbase.restored] at ho ⊢
        split at ho
        next howned => rw [if_pos howned, hconfig, SourceConfig.startupOffset, mode]
        next => cases ho
      exact hd.readsFrom hfits hn hs o.fetcher (Or.inr hget)

/-- What a connector tracks of a snapshot from which it was restored came with its offset. -/
theorem RestoredFrom.readsFrom (h : s.RestoredFrom (Snapshot.write copied) w)
    (hw : w.broker.CommitsPositions) (hread : Snapshot.read (Snapshot.write copied) = .ok copied)
    (hfits : s.world.broker.Fits) (hn : Position.after? last = some n)
    (hcommitted : w.broker.committed.get? p = some n)
    (hlast : copied.get? p = some (.concrete last))
    (hp : s.connector.currentState.contains p = true) :
    s.ReadsFrom p n ∧ s.connector.restored = some copied ∧
      s.connector.subscribed.get? p = some (.concrete last) := by
  cases h with
  | @restored _ _ _ c w' _ created grows run =>
    have law := FetchTrace.StartsAt.law p hn
    have hs := ((of_create_startsAt created grows hcommitted last).perform law
      (.restore (Snapshot.write copied))).of_moves law run
    have deliveryLaw := FetchTrace.Delivery.law w'.broker
    have hd : s.Delivering w'.broker :=
      Sound.of_moves deliveryLaw (Sound.perform deliveryLaw
        (delivering_of_created created (grows.commitsPositions hw) [])
        (.restore (Snapshot.write copied))) run
    have hbase := run.base fun _ _ ha => ha
    obtain ⟨-, t, -, rfl⟩ := Connector.create_ok created
    have hcovering := ((Covering.start rfl rfl w').of_step
      (perform_step SharedBroker.components_moves _ _)).of_interleaves run
    have howning := ((owning_start rfl w').of_step
      (perform_step SharedBroker.components_moves _ _)).of_interleaves run
    rw [perform, Connector.restore_ok rfl hread] at hbase
    rcases hs.stage with u | ⟨f, o⟩
    · rw [Connector.currentState, u.fetcher] at hp
      cases hp
    · obtain ⟨owned, hmerged, -⟩ := o.merged
      -- What is tracked is owned and passes the filter, so that its restored offset was kept.
      have hkept : s.connector.Kept copied p :=
        ⟨SortedMap.contains_eq_true_iff.mpr ⟨_, hlast⟩,
          Connector.keepsTopic_iff.mp (hcovering.tracked p hp)⟩
      have hget : s.connector.subscribed.get? p = some (.concrete last) := by
        rw [hmerged, Connector.get?_merge_of_kept hbase.restored owned (howning.tracked p hp) hkept]
        exact hlast
      exact ⟨hd.readsFrom hfits hn hs o.fetcher (Or.inl hget), hbase.restored, hget⟩

theorem RestoredFrom.extends {bytes : Bytes} (h : s.RestoredFrom bytes w) :
    w.broker.Extends s.world.broker := by
  cases h with
  | @restored _ _ _ c w' _ _ grows run =>
    have hrestored :=
      (perform_step SharedBroker.components_moves (start c w') (.restore bytes)).extends
    exact (grows.logs.trans hrestored).trans run.extends

/-- Restarting from the offsets of the group agrees with restarting from the snapshot. After a
checkpoint of which the commit succeeded, and without a later commit of others, take a new connector that
starts where the group committed, and one that is restored from the snapshot of the checkpoint. Of every
partition that has an offset in the snapshot, and that the one tracks since its opening and the other
tracks, both read the records from the same position on, which is the one after this offset. After the
first one has resolved the partition, their entries of it are equal whenever they have emitted equally
many records of it. The counts of the snapshot have to fit into its fields, and the logs may not outgrow
the offsets. -/
theorem restarts_agree {config : SourceConfig} {index count : UInt64}
    {sA sB : Session BrokerDiscoverer SharedBroker} (hc : Connector.create config index count = .ok c)
    (hw : w.broker.CommitsPositions) (hs : Checkpointed c w id copied s)
    (hcount : OffsetState.Countable copied) (hp : copied.get? p = some (.concrete last))
    (hA : sA.StartedFromGroup s.world) (hfitsA : sA.world.broker.Fits)
    (hpA : sA.connector.subscribed.contains p = true)
    (hB : sB.RestoredFrom (Snapshot.write copied) s.world) (hfitsB : sB.world.broker.Fits)
    (hpB : sB.connector.currentState.contains p = true) :
    sB.connector.restored = some copied ∧ ∃ n : Position,
      n.toInt = last.toInt + 1 ∧ sA.ReadsFrom p n ∧ sB.ReadsFrom p n ∧
        (sA.history.resolutions p ≠ [] → (sA.recordsOf p).length = (sB.recordsOf p).length →
          sA.connector.currentState.get? p = sB.connector.currentState.get? p) := by
  obtain ⟨n, hn, hcommitted⟩ := hs.exists_position hc hw hp
  obtain ⟨hstorable, hpositions⟩ := hs.storable hc hw (hfitsB.of_extends hB.extends)
  have hread := Snapshot.read_write hcount hstorable
  have hreadsA := hA.readsFrom hpositions hfitsA hn hcommitted hpA
  obtain ⟨hreadsB, hrestored, hlast⟩ :=
    hB.readsFrom hpositions hread hfitsB hn hcommitted hp hpB
  have hknown : sB.connector.subscribed.get? p ≠ some .groupCommitted := by
    rw [hlast]
    exact nofun
  exact ⟨hrestored, n, Position.toInt_after? hn, hreadsA, hreadsB, fun hresolved hlength =>
    hreadsA.entry_eq hreadsB (Or.inr hresolved) (Or.inl hknown) hlength⟩

end Session

end CheckpointedLog

namespace CheckpointedLog.Session

open scoped Pattern

/-- The first connector emitted one of two records that it had polled, and its checkpoint was committed.
Both connectors after it emit the other record, and then one that was appended in the meantime. -/
theorem restarts_agree_within_batch :
    let p : Partition := ⟨"t", 0⟩
    let b : MemoryBroker := ((MemoryBroker.ofMaxBatch 2).createTopic "t" 1).append p [[10], [11]]
    let config : SourceConfig := { topics := .list ["t"], startup := .earliest, checkpointing := true }
    let config' : SourceConfig := { topics := .list ["t"], startup := .groupOffsets }
    let c : Connector BrokerDiscoverer := { config := config, subtask := .single }
    let c' : Connector BrokerDiscoverer := { config := config', subtask := .single }
    let copied : OffsetState := .insert .empty p (.concrete 0)
    let s₁ := (start c ⟨b, []⟩).performAll SharedBroker.components
      (.open :: .run :: (List.replicate 6 (.fetch 0) ++ [.beginSnapshot 1, .copySnapshot 0]))
    let s₂ := (s₁.perform SharedBroker.components (.endSnapshot 0)).performAll
      SharedBroker.components [.beginCompletion 1]
    let s := s₂.perform SharedBroker.components (.commitPending 0)
    let grown (w : SharedBroker) : SharedBroker :=
      { w with broker := w.broker.append p [[12]] }
    let w := grown s.world
    let sA := (start c' w).performAll SharedBroker.components
      (.open :: .run :: List.replicate 10 (.fetch 0))
    let sB := ((start c' w).perform SharedBroker.components
      (.restore (Snapshot.write copied))).performAll SharedBroker.components
        (.open :: .run :: List.replicate 9 (.fetch 0))
    s₁.snapshots = [(1, some copied)] ∧ s.world.broker.commitCount = 1 ∧
      sA.recordsOf p = [⟨p, 1, [11]⟩, ⟨p, 2, [12]⟩] ∧ sB.recordsOf p = [⟨p, 1, [11]⟩, ⟨p, 2, [12]⟩] ∧
      sB.connector.restored = some copied ∧ ∃ n : Position,
        n.toInt = (0 : Int64).toInt + 1 ∧ sA.ReadsFrom p n ∧ sB.ReadsFrom p n ∧
          (sA.history.resolutions p ≠ [] → (sA.recordsOf p).length = (sB.recordsOf p).length →
            sA.connector.currentState.get? p = sB.connector.currentState.get? p) := by
  intro p b config config' c c' copied s₁ s₂ s grown w sA sB
  have hsnapshots : s₁.snapshots = [(1, some copied)] := by
    simp only [p, b, config, c, s₁, copied]
    rfl
  have hcount : s.world.broker.commitCount = 1 ∧ s₂.world.broker.commitCount = 0 := by
    simp only [p, b, config, c, s₁, s₂, s]
    decide +kernel
  have hrecordsA : sA.recordsOf p = [⟨p, 1, [11]⟩, ⟨p, 2, [12]⟩] := by
    simp only [p, b, config, config', c, c', s₁, s₂, s, grown, w, sA]
    decide +kernel
  have hrecordsB : sB.recordsOf p = [⟨p, 1, [11]⟩, ⟨p, 2, [12]⟩] := by
    simp only [p, b, config, config', c, c', copied, s₁, s₂, s, grown, w, sB]
    decide +kernel
  have htracked : sA.connector.subscribed.contains p = true ∧
      sB.connector.currentState.contains p = true := by
    simp only [p, b, config, config', c, c', copied, s₁, s₂, s, grown, w, sA, sB]
    decide +kernel
  have hlogs : sA.world.broker.topics.entries = [("t", [[[10], [11], [12]]])] ∧
      sB.world.broker.topics.entries = [("t", [[[10], [11], [12]]])] := by
    simp only [p, b, config, config', c, c', copied, s₁, s₂, s, grown, w, sA, sB]
    decide +kernel
  have hc : Connector.create config 0 1 = .ok c := by
    simp only [config, c]
    rfl
  have hc' : Connector.create config' 0 1 = .ok c' := by
    simp only [config', c']
    rfl
  have hentries : copied.entries = [(p, .concrete 0)] := rfl
  have hb : b.CommitsPositions := by
    intro q n hn
    cases hn
  have hcompletes : s₂.completions[0]? = some 1 := by
    simp only [p, b, config, c, s₁, s₂]
    decide +kernel
  have hrun : Interleaves SharedBroker.components SharedBroker.Continues (fun _ _ => True)
      (start c ⟨b, []⟩) s₁ := Interleaves.refl.performAll fun _ _ _ => trivial
  have hwaits : Interleaves SharedBroker.components SharedBroker.Continues
      (fun t a => ∀ bytes, t.returned? a ≠ some (1, bytes))
      (s₁.perform SharedBroker.components (.endSnapshot 0)) s₂ := by
    refine Interleaves.refl.performAll fun t a ha bytes => ?_
    obtain rfl := List.mem_singleton.mp ha
    exact (Option.some_ne_none _).symm
  have hrunA : Interleaves SharedBroker.components SharedBroker.Grows (fun _ a => a.isRestore = false)
      (start c' w) sA := Interleaves.refl.performAll fun _ => by decide
  have hrunB : Interleaves SharedBroker.components SharedBroker.Grows (fun _ a => a.isRestore = false)
      ((start c' w).perform SharedBroker.components (.restore (Snapshot.write copied))) sB :=
    Interleaves.refl.performAll fun _ => by decide
  have hgrown (w : SharedBroker) : w.Grows (grown w) := ⟨w.broker.append_extends p [[12]], rfl⟩
  have hgrows : s.world.Grows w := hgrown s.world
  -- From here on the runs are not to be evaluated again.
  clear_value sA sB w s₁ b c c' copied
  have hreturned : s₁.snapshots[0]? = some (1, some copied) := by
    rw [hsnapshots]
    rfl
  have hcounted : s.world.broker.commitCount ≠ s₂.world.broker.commitCount := by
    rw [hcount.1, hcount.2]
    decide
  have hs : Checkpointed c ⟨b, []⟩ 1 copied s :=
    .completed hrun hreturned hwaits hcompletes hcounted
  have hcountable : copied.Countable := by
    apply OffsetState.countable_of_entries
    · rw [hentries]
      decide
    · rw [hentries]
      decide
  have hp : copied.get? p = some (.concrete 0) :=
    SortedMap.get?_eq_some_iff.mpr (hentries ▸ List.mem_singleton_self _)
  have hfitsA : sA.world.broker.Fits := MemoryBroker.fits_of_entries (by rw [hlogs.1]; decide)
  have hfitsB : sB.world.broker.Fits := MemoryBroker.fits_of_entries (by rw [hlogs.2]; decide)
  exact ⟨hsnapshots, hcount.1, hrecordsA, hrecordsB,
    restarts_agree hc hb hs hcountable hp (.started hc' rfl hgrows hrunA) hfitsA htracked.1
      (.restored hc' hgrows hrunB) hfitsB htracked.2⟩

/-- The condition on the opening is needed. The snapshot has the offset 0 of a partition that the broker
does not know yet, and the position 1 is committed for it. The connector that is not restored finds the
partition after its opening, and reads it from its beginning; the restored one goes on at the
position 1. -/
theorem discovered_starts_earlier :
    let p : Partition := ⟨"t", 0⟩
    let b : MemoryBroker := .ofMaxBatch 1
    let config : SourceConfig :=
      { topics := .list ["t"], discoveryIntervalMs := 5, checkpointing := true }
    let c : Connector BrokerDiscoverer := { config := config, subtask := .single }
    let copied : OffsetState := .insert .empty p (.concrete 0)
    let grown (w : SharedBroker) : SharedBroker :=
      { w with broker := (w.broker.createTopic "t" 1).append p [[10], [11]] }
    let s₁ := (start c ⟨b, []⟩).performAll SharedBroker.components
      [.restore (Snapshot.write copied), .open, .beginSnapshot 1, .copySnapshot 0]
    let s₂ := (s₁.perform SharedBroker.components (.endSnapshot 0)).performAll
      SharedBroker.components [.beginCompletion 1]
    let s := s₂.perform SharedBroker.components (.commitPending 0)
    let opened := (start c s.world).performAll SharedBroker.components [.open, .run]
    let sA := { opened with world := grown opened.world }.performAll SharedBroker.components
      (.discover 5 :: .discover 5 :: List.replicate 7 (.fetch 5))
    let sB := ((start c (grown s.world)).perform SharedBroker.components
      (.restore (Snapshot.write copied))).performAll SharedBroker.components
        (.open :: .run :: List.replicate 7 (.fetch 0))
    b.CommitsPositions ∧ Checkpointed c ⟨b, []⟩ 1 copied s ∧ copied.get? p = some (.concrete 0) ∧
      sA.StartedFromGroup s.world ∧ sB.RestoredFrom (Snapshot.write copied) s.world ∧
      sA.history.resolutions p = [0] ∧ sA.recordsOf p = [⟨p, 0, [10]⟩] ∧
      sA.connector.currentState.get? p = some (.concrete 0) ∧
      sB.recordsOf p = [⟨p, 1, [11]⟩] ∧ sB.connector.currentState.get? p = some (.concrete 1) := by
  intro p b config c copied grown s₁ s₂ s opened sA sB
  have hsnapshots : s₁.snapshots = [(1, some copied)] := by
    simp only [p, b, config, c, s₁, copied]
    rfl
  have hcount : s.world.broker.commitCount = 1 ∧ s₂.world.broker.commitCount = 0 := by
    simp only [p, b, config, c, copied, s₁, s₂, s]
    decide +kernel
  have hA : sA.history.resolutions p = [0] ∧ sA.recordsOf p = [⟨p, 0, [10]⟩] ∧
      sA.connector.currentState.get? p = some (.concrete 0) := by
    simp only [p, b, config, c, copied, grown, s₁, s₂, s, opened, sA]
    decide +kernel
  have hB : sB.recordsOf p = [⟨p, 1, [11]⟩] ∧
      sB.connector.currentState.get? p = some (.concrete 1) := by
    simp only [p, b, config, c, copied, grown, s₁, s₂, s, sB]
    decide +kernel
  have hb : b.CommitsPositions := by
    intro q n hn
    cases hn
  have hc : Connector.create config 0 1 = .ok c := by
    simp only [config, c]
    rfl
  have hgrown (w : SharedBroker) : w.Grows (grown w) :=
    ⟨(w.broker.createTopic_extends "t" 1).trans (MemoryBroker.append_extends _ p _), rfl⟩
  have hcompletes : s₂.completions[0]? = some 1 := by
    simp only [p, b, config, c, copied, s₁, s₂]
    decide +kernel
  have hrun : Interleaves SharedBroker.components SharedBroker.Continues (fun _ _ => True)
      (start c ⟨b, []⟩) s₁ := Interleaves.refl.performAll fun _ _ _ => trivial
  have hwaits : Interleaves SharedBroker.components SharedBroker.Continues
      (fun t a => ∀ bytes, t.returned? a ≠ some (1, bytes))
      (s₁.perform SharedBroker.components (.endSnapshot 0)) s₂ := by
    refine Interleaves.refl.performAll fun t a ha bytes => ?_
    obtain rfl := List.mem_singleton.mp ha
    exact (Option.some_ne_none _).symm
  have hopened : Interleaves SharedBroker.components SharedBroker.Grows (fun _ a => a.isRestore = false)
      (start c s.world) opened := Interleaves.refl.performAll fun _ => by decide
  have hlater : Interleaves SharedBroker.components SharedBroker.Grows (fun _ a => a.isRestore = false)
      (start c s.world) sA := Interleaves.performAll (.moved hopened (hgrown _)) fun _ => by decide
  have hrestored : Interleaves SharedBroker.components SharedBroker.Grows
      (fun _ a => a.isRestore = false) ((start c (grown s.world)).perform SharedBroker.components
        (.restore (Snapshot.write copied))) sB := Interleaves.refl.performAll fun _ => by decide
  have hgrows := hgrown s.world
  have hp : copied.get? p = some (.concrete 0) := SortedMap.get?_insert_self ..
  -- From here on the runs are not to be evaluated again.
  clear_value sA sB opened s₁ grown b c copied
  have hreturned : s₁.snapshots[0]? = some (1, some copied) := by
    rw [hsnapshots]
    rfl
  have hcounted : s.world.broker.commitCount ≠ s₂.world.broker.commitCount := by
    rw [hcount.1, hcount.2]
    decide
  have hs : Checkpointed c ⟨b, []⟩ 1 copied s :=
    .completed hrun hreturned hwaits hcompletes hcounted
  exact ⟨hb, hs, hp, .started hc rfl (.refl _) hlater, .restored hc hgrows hrestored, hA.1, hA.2.1,
    hA.2.2, hB⟩

end CheckpointedLog.Session
