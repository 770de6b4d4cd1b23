import CheckpointedLog.Proofs.Connector.Step
import CheckpointedLog.Proofs.Fetch.Step

/-!
From fetching to the whole life of a connector. A property of fetch runs that survives the steps of the
loop, the additions of discovery, copies, cancellation, and whatever else the connector does to the
world holds of every connector that was opened, whoever calls its operations in whatever order.
-/
namespace CheckpointedLog

variable [Libraries] {δ ω : Type}

/-- What a property `I` of fetch runs, relative to the offsets at which they began, has to satisfy to
hold throughout the lives of connectors in worlds that satisfy `J` before they are opened. -/
structure FetchLaw (parts : Components δ ω) (J : ω → Prop)
    (I : OffsetState → FetchTrace ω → Prop) (G : ω → ω → Prop) : Prop where
  moves : parts.Moves G
  fresh : ∀ {w w'}, J w → G w w' → J w'
  begin : ∀ {w s} settings, J w → s.Storable →
    I s (.begin { settings := settings, offsets := s } w)
  step : ∀ {s t}, I s t → ∀ now, I s (t.perform parts.client (.step now))
  copy : ∀ {s t}, I s t → I s (t.perform parts.client .copy)
  add : ∀ {s t}, I s t → ∀ found, I s (t.perform parts.client (.add .earliest found))
  cancel : ∀ {s t}, I s t → I s { t with run := t.run.cancel }
  move : ∀ {s t w}, I s t → G t.run.world w → I s (t.inWorld w)
  commit : ∀ {s t copied positions}, I s t → .copied copied ∈ t.history →
    Fetcher.positionsAfter (OffsetState.concreteOffsets copied) = .ok positions →
    I s (t.inWorld (parts.client.commit positions t.run.world).2)

namespace Session

def trace (s : Session δ ω) (f : Fetcher) : FetchTrace ω := ⟨⟨s.fetch, f, s.world⟩, s.history⟩

structure Unopened (J : ω → Prop) (s : Session δ ω) : Prop where
  fetcher : s.connector.fetcher = none
  phase : s.connector.phase = .created ∨ s.connector.phase.isStopping = true
  world : J s.world
  fetch : s.fetch = {}
  history : s.history = []
  snapshots : s.snapshots = []
  pending : ∀ id, s.connector.pending.get? id = none
  stopped : s.isRunning = false

/-- A session in which the connector was opened and fetches with `f`. -/
structure Opened (I : OffsetState → FetchTrace ω → Prop) (f : Fetcher) (s : Session δ ω) : Prop where
  fetcher : s.connector.fetcher = some f
  phase : s.connector.phase ≠ .created
  merged : ∃ owned, s.connector.subscribed = s.connector.merge owned ∧
    ∀ p ∈ owned, s.connector.subtask.owns p = true
  trace : I s.connector.subscribed (s.trace f)
  unrun : s.connector.phase = .opened → s.fetch = {} ∧ s.isRunning = false
  snapshots : ∀ id copied, (id, some copied) ∈ s.snapshots → .copied copied ∈ s.history
  pending : ∀ id offsets, s.connector.pending.get? id = some offsets →
    s.connector.config.commitMode = .onCheckpoints ∧
      ∃ copied, .copied copied ∈ s.history ∧ offsets = OffsetState.concreteOffsets copied

structure Sound (J : ω → Prop) (I : OffsetState → FetchTrace ω → Prop) (s : Session δ ω) : Prop where
  valid : s.connector.config.validate = .ok ()
  restorable : ∀ restored, s.connector.restored = some restored → restored.Storable
  stage : s.Unopened J ∨ ∃ f, s.Opened I f

variable {parts : Components δ ω} {J : ω → Prop} {I : OffsetState → FetchTrace ω → Prop}
  {G : ω → ω → Prop} {s s' : Session δ ω} {f : Fetcher} {a : SessionAction}

namespace Unopened

/-- An opening that succeeds begins fetching at the merged offsets. -/
theorem opened (law : FetchLaw parts J I G) (u : s.Unopened J)
    (hvalid : s.connector.config.validate = .ok ())
    (hrestorable : ∀ restored, s.connector.restored = some restored → restored.Storable)
    (found : List Partition) (d : δ) {w : ω} (hmove : G s.world w) :
    { s with connector := s.connector.Opened found d, world := w }.Opened I
      { settings := Connector.fetchSettings s.connector.config
        offsets := s.connector.merge (s.connector.subtask.assign found) } where
  fetcher := rfl
  phase := Phase.noConfusion
  merged := ⟨s.connector.subtask.assign found, rfl, fun p hp => (Subtask.mem_assign.mp hp).2⟩
  trace := by
    have hstorable := Connector.merge_storable hvalid hrestorable (s.connector.subtask.assign found)
    have htrace := law.begin (Connector.fetchSettings s.connector.config)
      (law.fresh u.world hmove) hstorable
    simp only [Session.trace, u.fetch, u.history]
    exact htrace
  unrun _ := ⟨u.fetch, u.stopped⟩
  snapshots id copied h := by
    simp only [u.snapshots] at h
    cases h
  pending id offsets h := by cases (u.pending id).symm.trans h

omit [Libraries] in
theorem completed (u : s.Unopened J) {id : UInt64} {w : ω} (place : Nat)
    (hw : w = s.world ∨ ∃ offsets positions, s.connector.CompletesWith id offsets positions ∧
      w = (parts.client.commit positions s.world).2) :
    { s with
      connector := { s.connector with pending := (s.connector.pending.complete id).2 }, world := w
      completions := s.completions.eraseIdx place }.Unopened J := by
  have hsame : w = s.world := by
    refine hw.resolve_right ?_
    rintro ⟨offsets, positions, hcompletes, -⟩
    cases (u.pending id).symm.trans hcompletes.pending
  obtain ⟨-, -, hkept⟩ := s.connector.pending.complete_cases id
  refine { u with world := hsame ▸ u.world, pending := fun other => ?_ }
  apply Option.eq_none_iff_forall_ne_some.mpr
  intro offsets ho
  cases (u.pending other).symm.trans (hkept other offsets ho)

/-- Without a fetcher every operation but opening does nothing that matters here. -/
theorem of_step (law : FetchLaw parts J I G) (u : s.Unopened J)
    (hvalid : s.connector.config.validate = .ok ())
    (hrestorable : ∀ restored, s.connector.restored = some restored → restored.Storable)
    (h : s.Step parts G a s') : s'.Unopened J ∨ ∃ f, s'.Opened I f := by
  cases h with
  | idle => exact Or.inl u
  | restored => exact Or.inl { u with }
  | opened _ hmove => exact Or.inr ⟨_, u.opened law hvalid hrestorable _ _ hmove⟩
  | openFailed hmove => exact Or.inl { u with world := law.fresh u.world hmove }
  | begun hphase =>
    -- A run cannot begin, so that steps of a run do not happen either.
    rcases u.phase with h | h
    · cases hphase.symm.trans h
    · rw [hphase] at h
      cases h
  | fetched hrun | tracked hrun | discoveryEnded hrun | searched hrun | finished hrun
  | failed hrun => cases u.stopped.symm.trans hrun
  | snapshotBegun _ hf | copied _ hf => cases u.fetcher.symm.trans hf
  | snapshotEnded hplace =>
    rw [u.snapshots] at hplace
    cases hplace
  | completionBegun => exact Or.inl { u with }
  | completed _ hw => exact Or.inl (u.completed _ hw)
  | cancelled =>
    refine Or.inl { u with fetcher := ?_, phase := Or.inr (Phase.isStopping_stop _) }
    exact congrArg (Option.map Fetcher.cancel) u.fetcher
  | closed hmove =>
    refine Or.inl { u with
      fetcher := ?_, phase := Or.inr rfl, world := law.fresh u.world hmove }
    exact congrArg (Option.map Fetcher.cancel) u.fetcher

end Unopened

namespace Opened

theorem of_same (o : s.Opened I f) {s' : Session δ ω} {f' : Fetcher}
    (hbase : s.connector.SameBase s'.connector)
    (hsubscribed : s'.connector.subscribed = s.connector.subscribed)
    (hfetcher : s'.connector.fetcher = some f') (hphase : s'.connector.phase ≠ .created)
    (htrace : I s.connector.subscribed (s'.trace f'))
    (hunrun : s'.connector.phase = .opened → s'.fetch = {} ∧ s'.isRunning = false)
    (hhistory : s.history ⊆ s'.history)
    (hsnapshots : ∀ id copied, (id, some copied) ∈ s'.snapshots →
      (id, some copied) ∈ s.snapshots ∨ .copied copied ∈ s'.history)
    (hpending : ∀ id offsets, s'.connector.pending.get? id = some offsets →
      s.connector.pending.get? id = some offsets ∨ s.connector.config.commitMode = .onCheckpoints ∧
        ∃ copied, .copied copied ∈ s'.history ∧ offsets = OffsetState.concreteOffsets copied) :
    s'.Opened I f' where
  fetcher := hfetcher
  phase := hphase
  merged := by
    obtain ⟨owned, hm, hown⟩ := o.merged
    refine ⟨owned, ?_, fun p hp => ?_⟩
    · rw [hsubscribed, hbase.merge, hm]
    · rw [hbase.subtask]
      exact hown p hp
  trace := by
    rw [hsubscribed]
    exact htrace
  unrun := hunrun
  snapshots id copied h := (hsnapshots id copied h).elim
    (fun h => hhistory (o.snapshots id copied h)) fun h => h
  pending id offsets h := by
    rw [hbase.config]
    rcases hpending id offsets h with h | h
    · obtain ⟨hmode, copied, hc, ho⟩ := o.pending id offsets h
      exact ⟨hmode, copied, hhistory hc, ho⟩
    · exact h

/-- An operation that changes neither the snapshots nor what was seen of fetching. -/
theorem of_quiet (o : s.Opened I f) {s' : Session δ ω} {f' : Fetcher}
    (hbase : s.connector.SameBase s'.connector)
    (hsubscribed : s'.connector.subscribed = s.connector.subscribed)
    (hfetcher : s'.connector.fetcher = some f') (hphase : s'.connector.phase ≠ .created)
    (htrace : I s.connector.subscribed (s'.trace f'))
    (hunrun : s'.connector.phase = .opened → s'.fetch = {} ∧ s'.isRunning = false)
    (hhistory : s'.history = s.history) (hsnapshots : s'.snapshots = s.snapshots)
    (hpending : ∀ id offsets, s'.connector.pending.get? id = some offsets →
      s.connector.pending.get? id = some offsets) : s'.Opened I f' :=
  o.of_same hbase hsubscribed hfetcher hphase htrace hunrun (hhistory ▸ fun _ h => h)
    (fun _ _ h => Or.inl (hsnapshots ▸ h)) fun id offsets h => Or.inl (hpending id offsets h)

theorem not_opened_of_running (o : s.Opened I f) (h : s.isRunning = true) :
    s.connector.phase ≠ .opened := by
  intro hphase
  cases h.symm.trans (o.unrun hphase).2

theorem fetched (law : FetchLaw parts J I G) (o : s.Opened I f) (hrun : s.isRunning = true)
    (now : Nat) : ∃ f', (s.stepFetch parts.client now f).Opened I f' := by
  refine ⟨(s.fetch.step parts.client now f s.world).2.1, o.of_same ⟨rfl, rfl, rfl⟩ rfl rfl o.phase
    (law.step o.trace now) (fun h => absurd h (o.not_opened_of_running hrun)) ?_ ?_
    fun id offsets h => Or.inl h⟩
  · exact List.subset_append_left ..
  · exact fun id copied h => Or.inl h

theorem tracked (law : FetchLaw parts J I G) (o : s.Opened I f) (hrun : s.isRunning = true)
    (discovery : Option DiscoveryLoop) (found : List Partition) :
    { s with
      discovery := discovery, connector := ConnectorRun.track found s.connector
      history := s.history ++ [FetchEvent.added found .earliest] }.Opened I
      { f with offsets := (f.offsets.addPartitions .earliest found).2 } := by
  refine o.of_same ⟨rfl, rfl, rfl⟩ rfl ?_ o.phase (law.add o.trace found)
    (fun h => absurd h (o.not_opened_of_running hrun)) ?_ ?_ fun id offsets h => Or.inl h
  · simp only [ConnectorRun.track, o.fetcher, Option.map_some]
  · exact List.subset_append_left ..
  · exact fun id copied h => Or.inl h

theorem cancelled (law : FetchLaw parts J I G) (o : s.Opened I f) (running : Bool) :
    { s with connector := s.connector.cancel, isRunning := running }.Opened I f.cancel := by
  have hstop := Phase.isStopping_stop s.connector.phase
  refine o.of_quiet ⟨rfl, rfl, rfl⟩ rfl ?_ (Phase.ne_of_isStopping hstop rfl) (law.cancel o.trace)
    (fun h => absurd h (Phase.ne_of_isStopping hstop rfl)) rfl rfl fun _ _ h => h
  exact congrArg (Option.map Fetcher.cancel) o.fetcher

theorem copied (law : FetchLaw parts J I G) (o : s.Opened I f) (place : Nat) (id : UInt64) :
    { s with
      connector := s.connector.resume
      snapshots := s.snapshots.set place (id, some f.offsets)
      history := s.history ++ [FetchEvent.copied f.offsets] }.Opened I f := by
  refine o.of_same ⟨rfl, rfl, rfl⟩ rfl o.fetcher (fun h => ?_) (law.copy o.trace) (fun h => ?_)
    (List.subset_append_left ..) ?_ fun _ _ h => Or.inl h
  · exact o.phase (Phase.of_shift_eq h Phase.noConfusion)
  · exact o.unrun (Phase.of_shift_eq h Phase.noConfusion)
  · intro other copied h
    rcases List.mem_or_eq_of_mem_set h with h | h
    · exact Or.inl h
    · obtain rfl := Option.some.inj (Prod.mk.inj h).2
      exact Or.inr (List.mem_append_right _ (List.mem_singleton_self _))

/-- What becomes pending at the end of a snapshot was copied for it. -/
theorem snapshotEnded (o : s.Opened I f) {place : Nat} {id : UInt64} {copied : OffsetState}
    (hplace : s.snapshots[place]? = some (id, some copied)) :
    { s with
      connector := (s.connector.endSnapshot id copied).2
      snapshots := s.snapshots.eraseIdx place }.Opened I f := by
  have hcopied := o.snapshots id copied (List.mem_of_getElem? hplace)
  refine o.of_same ⟨rfl, rfl, rfl⟩ rfl o.fetcher o.phase o.trace o.unrun (fun _ h => h)
    (fun _ _ h => Or.inl (List.mem_of_mem_eraseIdx h)) ?_
  intro other offsets h
  simp only [Connector.endSnapshot] at h
  split at h
  next hmode =>
    rcases PendingCheckpoints.get?_remember h with ⟨-, he⟩ | ⟨-, h⟩
    · exact Or.inr ⟨hmode, copied, hcopied, he⟩
    · exact Or.inl h
  next => exact Or.inl h

theorem completed (law : FetchLaw parts J I G) (o : s.Opened I f) {id : UInt64} {w : ω} (place : Nat)
    (hw : w = s.world ∨ ∃ offsets positions, s.connector.CompletesWith id offsets positions ∧
      w = (parts.client.commit positions s.world).2) :
    { s with
      connector := { s.connector with pending := (s.connector.pending.complete id).2 }, world := w
      completions := s.completions.eraseIdx place }.Opened I f := by
  have htrace : I s.connector.subscribed ((s.trace f).inWorld w) := by
    rcases hw with rfl | ⟨offsets, positions, hcompletes, rfl⟩
    · exact o.trace
    · obtain ⟨-, copied, hcopied, rfl⟩ := o.pending id offsets hcompletes.pending
      exact law.commit o.trace hcopied hcompletes.positions
  obtain ⟨-, -, hkept⟩ := s.connector.pending.complete_cases id
  exact o.of_quiet ⟨rfl, rfl, rfl⟩ rfl o.fetcher o.phase htrace o.unrun rfl rfl hkept

theorem of_step (law : FetchLaw parts J I G) (o : s.Opened I f) (h : s.Step parts G a s') :
    ∃ f', s'.Opened I f' := by
  cases h with
  | idle => exact ⟨f, o⟩
  | restored _ hphase | opened hphase => exact absurd hphase o.phase
  | openFailed hmove =>
    exact ⟨f, o.of_quiet ⟨rfl, rfl, rfl⟩ rfl o.fetcher o.phase (law.move o.trace hmove) o.unrun rfl
      rfl fun _ _ h => h⟩
  | begun hphase =>
    refine ⟨f, o.of_quiet ⟨rfl, rfl, rfl⟩ rfl o.fetcher Phase.noConfusion ?_ Phase.noConfusion rfl
      rfl fun _ _ h => h⟩
    have htrace := o.trace
    rwa [Session.trace, (o.unrun hphase).1] at htrace
  | fetched hrun hf =>
    obtain rfl := Option.some.inj (o.fetcher.symm.trans hf)
    exact o.fetched law hrun _
  | tracked hrun => exact ⟨_, o.tracked law hrun _ _⟩
  | discoveryEnded =>
    exact ⟨f, o.of_quiet ⟨rfl, rfl, rfl⟩ rfl o.fetcher o.phase o.trace o.unrun rfl rfl
      fun _ _ h => h⟩
  | searched hrun _ hmove hfetcher =>
    have hopened := o.not_opened_of_running hrun
    have htrace := law.move o.trace hmove
    rcases hfetcher with ⟨rfl, -⟩ | ⟨rfl, -⟩
    · exact ⟨f, o.of_quiet ⟨rfl, rfl, rfl⟩ rfl o.fetcher o.phase htrace
        (fun h => absurd h hopened) rfl rfl fun _ _ h => h⟩
    · exact ⟨f.cancel, o.of_quiet ⟨rfl, rfl, rfl⟩ rfl
        (congrArg (Option.map Fetcher.cancel) o.fetcher) o.phase (law.cancel htrace)
        (fun h => absurd h hopened) rfl rfl fun _ _ h => h⟩
  | finished hrun =>
    exact ⟨f, o.of_quiet ⟨rfl, rfl, rfl⟩ rfl o.fetcher o.phase o.trace
      (fun h => absurd h (o.not_opened_of_running hrun)) rfl rfl fun _ _ h => h⟩
  | failed => exact ⟨f.cancel, o.cancelled law false⟩
  | snapshotBegun =>
    refine ⟨f, o.of_same ⟨rfl, rfl, rfl⟩ rfl o.fetcher (fun h => ?_) o.trace (fun h => ?_)
      (fun _ h => h) ?_ fun _ _ h => Or.inl h⟩
    · exact o.phase (Phase.of_shift_eq h Phase.noConfusion)
    · exact o.unrun (Phase.of_shift_eq h Phase.noConfusion)
    · intro other copied h
      rcases List.mem_append.mp h with h | h
      · exact Or.inl h
      · simp at h
  | copied _ hf =>
    obtain rfl := Option.some.inj (o.fetcher.symm.trans hf)
    exact ⟨f, o.copied law _ _⟩
  | snapshotEnded hplace => exact ⟨f, o.snapshotEnded hplace⟩
  | completionBegun =>
    exact ⟨f, o.of_quiet ⟨rfl, rfl, rfl⟩ rfl o.fetcher o.phase o.trace o.unrun rfl rfl
      fun _ _ h => h⟩
  | completed _ hw => exact ⟨f, o.completed law _ hw⟩
  | cancelled => exact ⟨f.cancel, o.cancelled law s.isRunning⟩
  | closed hmove =>
    exact ⟨f.cancel, o.of_quiet ⟨rfl, rfl, rfl⟩ rfl (congrArg (Option.map Fetcher.cancel) o.fetcher)
      Phase.noConfusion (law.cancel (law.move o.trace hmove)) Phase.noConfusion rfl rfl
      fun _ _ h => h⟩

end Opened

namespace Sound

theorem of_step (law : FetchLaw parts J I G) (h : s.Sound J I) (hstep : s.Step parts G a s') :
    s'.Sound J I := by
  obtain ⟨hconfig, -, hrestored⟩ := hstep.base
  refine ⟨hconfig ▸ h.valid, fun restored hr => ?_, ?_⟩
  · rcases hrestored with he | ⟨-, r, hstorable, he⟩
    · exact h.restorable restored (he ▸ hr)
    -- What was read from a snapshot can be stored.
    · obtain rfl := Option.some.inj (he.symm.trans hr)
      exact hstorable
  · rcases h.stage with u | ⟨f, o⟩
    · exact u.of_step law h.valid h.restorable hstep
    · exact Or.inr (o.of_step law hstep)

theorem perform (law : FetchLaw parts J I G) (h : s.Sound J I) (a : SessionAction) :
    (s.perform parts a).Sound J I :=
  h.of_step law (perform_step law.moves s a)

theorem performAll (law : FetchLaw parts J I G) (h : s.Sound J I) (actions : List SessionAction) :
    (s.performAll parts actions).Sound J I := by
  induction actions generalizing s with
  | nil => exact h
  | cons a actions ih => exact ih (h.perform law a)

/-- Once there is something to fetch with, fetching has the property. -/
theorem trace_of_fetcher (h : s.Sound J I) (hf : s.connector.fetcher = some f) :
    I s.connector.subscribed (s.trace f) := by
  rcases h.stage with u | ⟨g, o⟩
  · cases u.fetcher.symm.trans hf
  · obtain rfl := Option.some.inj (o.fetcher.symm.trans hf)
    exact o.trace

/-- The session of a new connector, to which a state may have been restored. -/
theorem start {c : Connector δ} {w : ω} (hvalid : c.config.validate = .ok ())
    (hrestorable : ∀ restored, c.restored = some restored → restored.Storable)
    (hphase : c.phase = .created) (hfetcher : c.fetcher = none)
    (hpending : ∀ id, c.pending.get? id = none) (hw : J w) : (Session.start c w).Sound J I where
  valid := hvalid
  restorable := hrestorable
  stage := Or.inl {
    fetcher := hfetcher, phase := Or.inl hphase, world := hw, fetch := rfl, history := rfl
    snapshots := rfl, pending := hpending, stopped := rfl }

theorem of_create {config : SourceConfig} {index count : UInt64} {c : Connector δ}
    (hc : Connector.create config index count = .ok c) {w : ω} (hw : J w) :
    (Session.start c w).Sound J I := by
  obtain ⟨hvalid, t, -, rfl⟩ := Connector.create_ok hc
  exact start hvalid nofun rfl rfl (fun _ => rfl) hw

end Sound

end Session

end CheckpointedLog
