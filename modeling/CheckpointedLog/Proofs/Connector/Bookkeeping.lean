import CheckpointedLog.Broker.Shared
import CheckpointedLog.Pattern.Reader
import CheckpointedLog.Proofs.Connector.Progress

namespace CheckpointedLog

variable {ω : Type}

variable [Libraries]

theorem Connector.marked_of_open {client : BrokerClient ω} {c : Connector BrokerDiscoverer} {w : ω}
    {d : BrokerDiscoverer} {found : List Partition}
    (h : (c.open ⟨client, BrokerDiscoverer.discoverer client⟩ w).result = .ok ())
    (hc : (c.open ⟨client, BrokerDiscoverer.discoverer client⟩ w).connector = c.Opened found d)
    (p : Partition) :
    d.marked.contains p = true ↔ (c.merge (c.subtask.assign found)).contains p = true := by
  obtain ⟨s, w₁, ps, elapsed, s₂, w₂, -, hs, hd, hafter, -⟩ := open_ok h
  -- Neither starting nor asking marks anything.
  obtain ⟨t, v, rfl, ht⟩ := discoverWithRetry_ok (P := fun t _ => t = s) (fun _ _ h => h) rfl hd
  have hsame : s₂ = t := (congrArg (fun x => x.2.1) ht).symm
  have hnone : s₂.marked = .empty := by
    rw [hsame]
    exact BrokerDiscoverer.start_marked (BrokerDiscoverer.start_of_discoverer hs)
  have hmarks := BrokerDiscoverer.marksAll client (c.merge (c.subtask.assign ps)).keys s₂ w₂
  obtain ⟨hoffsets, hdiscoverer⟩ : c.merge (c.subtask.assign found) = c.merge (c.subtask.assign ps) ∧
      d = ((BrokerDiscoverer.discoverer client).markAll (c.merge (c.subtask.assign ps)).keys s₂
        w₂).2.1 := by
    have hconnector := hc.symm.trans hafter
    exact ⟨congrArg Connector.subscribed hconnector,
      Option.some.inj (congrArg Connector.discoverer hconnector)⟩
  rw [hdiscoverer, hoffsets, hmarks.marked, hnone, SortedMap.mem_keys_iff]
  exact or_iff_right Bool.false_ne_true

theorem Connector.close_discoverer (client : BrokerClient ω) (c : Connector BrokerDiscoverer) (w : ω) :
    (c.close ⟨client, BrokerDiscoverer.discoverer client⟩ w).2.1.discoverer =
      if c.phase = .closed then c.discoverer else c.discoverer.map BrokerDiscoverer.close := by
  have hdiscoverer : (c.cancel.closeDiscoverer (BrokerDiscoverer.discoverer client) w).2.1.discoverer =
      c.discoverer.map BrokerDiscoverer.close := by
    have hsame : c.cancel.discoverer = c.discoverer := rfl
    unfold closeDiscoverer
    cases hd : c.discoverer <;> simp only [hsame, hd] <;> rfl
  -- The fetcher is closed after the discoverer, and leaves it as it is.
  have hfetcher (c' : Connector BrokerDiscoverer) (w' : ω) :
      (c'.closeFetcher client w').2.1.discoverer = c'.discoverer := by
    obtain ⟨result, w'', -, h⟩ := closeFetcher_moves
      (Components.movesAnywhere ⟨client, BrokerDiscoverer.discoverer client⟩) c' w'
    rw [h]
  unfold close
  split
  · rfl
  · exact (hfetcher _ _).trans hdiscoverer

/-- A cycle that fails marks nothing; one that succeeds marks the owned partitions that it discovers, and
finds those that were not marked before. -/
theorem ConnectorRun.discover_marks (client : BrokerClient ω) {r : ConnectorRun BrokerDiscoverer ω}
    {d : BrokerDiscoverer} (hd : r.connector.discoverer = some d) (now : Nat) (failures : UInt32) :
    let r' := r.discover (BrokerDiscoverer.discoverer client) now failures
    (∃ e, (d.discover client r.world).1 = .error e ∧ r'.connector.discoverer = some d ∧
      ∀ found failures, r'.discovery ≠ some ⟨.adding found, failures⟩) ∨
    ∃ ps found d', (d.discover client r.world).1 = .ok ps ∧ r'.connector.discoverer = some d' ∧
      r'.discovery = some ⟨.adding found, failures⟩ ∧
      d.MarksAll (r.connector.subtask.assign ps) found d' := by
  intro r'
  rcases hask : d.discover client r.world with ⟨e | ps, w⟩
  · left
    have hr : r' = { r with
        connector := { r.connector with discoverer := some d }, world := w }.discoveryFailed
          now failures e := by
      simp only [r', discover, hd, BrokerDiscoverer.discoverer, hask]
    obtain ⟨discovery, failure, fetcher, hfailed, -, hnone⟩ := discoveryFailed_cases now failures e
      { r with connector := { r.connector with discoverer := some d }, world := w }
    rw [hr, hfailed]
    exact ⟨e, rfl, rfl, hnone⟩
  · right
    refine ⟨ps, _, _, rfl, ?_, ?_, BrokerDiscoverer.marksAll client (r.connector.subtask.assign ps) d w⟩
    · simp only [r', discover, hd, BrokerDiscoverer.discoverer, hask]
    · simp only [r', discover, hd, BrokerDiscoverer.discoverer, hask]

namespace FetchHistory

omit [Libraries] in
theorem added_append (h h' : FetchHistory) : added (h ++ h') = added h ++ added h' :=
  List.flatMap_append

omit [Libraries] in
theorem added_event? (l : FetchLoop) (r : Option Record) : added (l.event? r).toList = [] := by
  cases he : l.event? r with
  | none => rfl
  | some e =>
    rcases FetchLoop.event?_cases he with ⟨p, n, rfl⟩ | ⟨p, x, rfl⟩
    · rfl
    · rfl

end FetchHistory

namespace Session

omit [Libraries] in
theorem awaited_of_adding {δ : Type} {s : Session δ ω} {found : List Partition} {failures : UInt32}
    (h : s.discovery = some ⟨.adding found, failures⟩) : s.awaited = found := by
  rw [awaited, h]

omit [Libraries] in
theorem awaited_eq_nil {δ : Type} {s : Session δ ω}
    (h : ∀ found failures, s.discovery ≠ some ⟨.adding found, failures⟩) : s.awaited = [] := by
  unfold awaited
  split
  next found failures hfound => exact absurd hfound (h found failures)
  next => rfl

structure Unmarked (s : Session BrokerDiscoverer ω) : Prop where
  discoverer : s.connector.discoverer = none
  fetcher : s.connector.fetcher = none
  phase : s.connector.phase = .created ∨ s.connector.phase.isStopping = true
  discovery : s.discovery = none
  snapshots : s.snapshots = []
  history : s.history.added = []
  stopped : s.isRunning = false

/-- A session in which the connector was opened, with the discoverer `d` and the tracked offsets of `f`.
What is marked is tracked or awaited; what is tracked was merged or added, each partition once. -/
structure Booked (d : BrokerDiscoverer) (f : Fetcher) (s : Session BrokerDiscoverer ω) : Prop where
  discoverer : s.connector.discoverer = some d
  fetcher : s.connector.fetcher = some f
  phase : s.connector.phase ≠ .created
  unrun : s.connector.phase = .opened → s.isRunning = false ∧ s.awaited = []
  marked : ∀ p, d.marked.contains p = true ↔ f.offsets.contains p = true ∨ p ∈ s.awaited
  tracked : ∀ p, f.offsets.contains p = true ↔
    s.connector.subscribed.contains p = true ∨ p ∈ s.history.added
  once : (s.history.added ++ s.awaited).Nodup
  later : ∀ p ∈ s.history.added ++ s.awaited, s.connector.subscribed.contains p = false

variable {client : BrokerClient ω} {s s' : Session BrokerDiscoverer ω} {d : BrokerDiscoverer}
  {f : Fetcher} {a : SessionAction} {G : ω → ω → Prop}

namespace Booked

omit [Libraries] in
theorem awaited_new (b : s.Booked d f) {p : Partition} (hp : p ∈ s.awaited) :
    f.offsets.contains p = false := by
  apply Bool.eq_false_iff.mpr
  intro htracked
  rcases (b.tracked p).mp htracked with h | h
  · cases h.symm.trans (b.later p (List.mem_append_right _ hp))
  · exact (List.nodup_append.mp b.once).2.2 p h p hp rfl

omit [Libraries] in
theorem of_same (b : s.Booked d f) {d' : BrokerDiscoverer} {f' : Fetcher}
    (hdiscoverer : s'.connector.discoverer = some d') (hmarked : d'.marked = d.marked)
    (hfetcher : s'.connector.fetcher = some f')
    (htracked : ∀ p, f'.offsets.contains p = f.offsets.contains p)
    (hphase : s'.connector.phase ≠ .created)
    (hopened : s'.connector.phase = .opened → s'.isRunning = false ∧ s'.awaited = [])
    (hsubscribed : s'.connector.subscribed = s.connector.subscribed)
    (hawaited : s'.awaited = s.awaited) (hadded : s'.history.added = s.history.added) :
    s'.Booked d' f' where
  discoverer := hdiscoverer
  fetcher := hfetcher
  phase := hphase
  unrun := hopened
  marked p := by
    rw [hmarked, htracked, hawaited]
    exact b.marked p
  tracked p := by
    rw [htracked, hsubscribed, hadded]
    exact b.tracked p
  once := by
    rw [hadded, hawaited]
    exact b.once
  later := by
    rw [hadded, hawaited, hsubscribed]
    exact b.later

omit [Libraries] in
theorem not_opened_of_running (b : s.Booked d f) (h : s.isRunning = true) :
    s.connector.phase ≠ .opened := by
  intro hphase
  cases h.symm.trans (b.unrun hphase).1

omit [Libraries] in
/-- What a cycle has found is tracked from its beginning, and nothing is awaited any more. -/
theorem added (b : s.Booked d f) (hrun : s.isRunning = true) {found : List Partition}
    {failures : UInt32} {discovery : Option DiscoveryLoop}
    (hfound : s.discovery = some ⟨.adding found, failures⟩)
    (hnext : ∀ found failures, discovery ≠ some ⟨.adding found, failures⟩) :
    { s with
      discovery := discovery, connector := ConnectorRun.track found s.connector
      history := s.history ++ [FetchEvent.added found .earliest] }.Booked d
      { f with offsets := (f.offsets.addPartitions .earliest found).2 } := by
  have hawaited : s.awaited = found := awaited_of_adding hfound
  have hnone := awaited_eq_nil (s := { s with
    discovery := discovery, connector := ConnectorRun.track found s.connector
    history := s.history ++ [FetchEvent.added found .earliest] }) hnext
  have hcontains (p : Partition) : (f.offsets.addPartitions .earliest found).2.contains p = true ↔
      f.offsets.contains p = true ∨ p ∈ s.awaited := by
    rw [hawaited]
    exact OffsetState.contains_addPartitions_iff
  have hadded : FetchHistory.added (s.history ++ [FetchEvent.added found .earliest]) =
      s.history.added ++ s.awaited := by
    rw [FetchHistory.added_append, hawaited]
    exact congrArg _ (List.append_nil found)
  constructor
  case discoverer => exact b.discoverer
  case fetcher => simp only [ConnectorRun.track, b.fetcher, Option.map_some]
  case phase => exact b.phase
  case unrun => exact fun h => absurd h (b.not_opened_of_running hrun)
  case marked =>
    intro p
    rw [hnone, hcontains]
    simpa using b.marked p
  case tracked =>
    intro p
    rw [hcontains, hadded, List.mem_append, b.tracked, or_assoc]
    rfl
  case once =>
    rw [hnone, hadded, List.append_nil]
    exact b.once
  case later =>
    rw [hnone, hadded, List.append_nil]
    exact b.later

/-- A cycle marks what it finds, so that it is awaited; all else that it discovers is tracked. -/
theorem searched (b : s.Booked d f) {s' : Session BrokerDiscoverer ω} {f' : Fetcher} {now wake : Nat}
    {failures : UInt32} (hstage : s.discovery = some ⟨.waiting wake, failures⟩)
    (hrun : s'.toConnectorRun =
      s.toConnectorRun.discover (BrokerDiscoverer.discoverer client) now failures)
    (hfetcher : s'.connector.fetcher = some f') (hoffsets : f'.offsets = f.offsets)
    (hphase : s'.connector.phase ≠ .created) (hopened : s'.connector.phase ≠ .opened)
    (hsubscribed : s'.connector.subscribed = s.connector.subscribed)
    (hhistory : s'.history = s.history) : ∃ d' f', s'.Booked d' f' ∧ d.Remembers d' := by
  have hnone : s.awaited = [] := awaited_eq_nil fun found failures h => by cases hstage.symm.trans h
  have hmarked (p : Partition) : d.marked.contains p = true ↔ f.offsets.contains p = true := by
    have h := b.marked p
    rw [hnone] at h
    simpa using h
  rcases ConnectorRun.discover_marks client b.discoverer now failures with
    ⟨e, -, hd', hdiscovery⟩ | ⟨ps, found, d', -, hd', hdiscovery, hmarks⟩
  · -- A cycle that fails leaves all as it was.
    rw [← hrun] at hd' hdiscovery
    have hawaited : s'.awaited = [] := awaited_eq_nil hdiscovery
    refine ⟨d, f', b.of_same hd' rfl hfetcher (fun p => ?_) hphase (fun h => absurd h hopened) hsubscribed
      (hawaited.trans hnone.symm) (congrArg _ hhistory), .of_eq rfl⟩
    rw [hoffsets]
  · rw [← hrun] at hd' hdiscovery
    have hawaited : s'.awaited = found := awaited_of_adding hdiscovery
    -- What is found was not marked, and so not tracked.
    have hnew {p : Partition} (hp : p ∈ found) :
        s.connector.subscribed.contains p = false ∧ p ∉ s.history.added := by
      have hunmarked : ¬ f.offsets.contains p = true := by
        rw [← hmarked, ((hmarks.anew p).mp hp).2]
        exact Bool.false_ne_true
      rw [b.tracked, not_or, Bool.not_eq_true] at hunmarked
      exact hunmarked
    have honce := b.once
    have hlater := b.later
    rw [hnone, List.append_nil] at honce hlater
    refine ⟨d', f', ⟨hd', hfetcher, hphase, fun h => absurd h hopened, ?_, ?_, ?_, ?_⟩,
      hmarks.remembers⟩
    · intro p
      rw [hoffsets, hawaited, hmarks.marked, hmarked, hmarks.anew, ← Bool.not_eq_true, hmarked]
      by_cases hp : f.offsets.contains p = true <;> simp [hp]
    · intro p
      rw [hoffsets, hsubscribed, hhistory]
      exact b.tracked p
    · rw [hhistory, hawaited]
      refine List.nodup_append.mpr ⟨honce, hmarks.nodup, ?_⟩
      rintro p hp q hq rfl
      exact (hnew hq).2 hp
    · rw [hhistory, hawaited, hsubscribed]
      intro p hp
      rcases List.mem_append.mp hp with hp | hp
      · exact hlater p hp
      · exact (hnew hp).1

omit [Libraries] in
theorem cancelled (b : s.Booked d f) {s' : Session BrokerDiscoverer ω}
    (hconnector : s'.connector = s.connector.cancel) (hawaited : s'.awaited = s.awaited)
    (hhistory : s'.history = s.history) : s'.Booked d f.cancel := by
  have hstop : s'.connector.phase.isStopping = true := by
    rw [hconnector]
    exact Phase.isStopping_stop s.connector.phase
  refine b.of_same (hconnector ▸ b.discoverer) rfl ?_ (fun _ => rfl)
    (fun h => absurd h (Phase.ne_of_isStopping hstop rfl))
    (fun h => absurd h (Phase.ne_of_isStopping hstop rfl))
    (hconnector ▸ rfl) hawaited (congrArg _ hhistory)
  rw [hconnector]
  exact congrArg (Option.map Fetcher.cancel) b.fetcher

theorem of_step (b : s.Booked d f)
    (h : s.Step ⟨client, BrokerDiscoverer.discoverer client⟩ G a s') :
    ∃ d' f', s'.Booked d' f' ∧ d.Remembers d' := by
  cases h with
  | idle => exact ⟨d, f, b, .of_eq rfl⟩
  -- An opened connector is neither restored nor opened again.
  | restored _ hphase | opened hphase => exact absurd hphase b.phase
  | openFailed | snapshotEnded | completionBegun | completed =>
    exact ⟨d, f, { b with }, .of_eq rfl⟩
  | begun hphase hdiscovery =>
    have hnone := awaited_eq_nil (s := { s with
      fetch := {}, discovery := _, failure := none
      connector := { s.connector with phase := .running }, isRunning := true }) hdiscovery
    exact ⟨d, f, b.of_same b.discoverer rfl b.fetcher (fun _ => rfl) Phase.noConfusion
      Phase.noConfusion rfl (hnone.trans (b.unrun hphase).2.symm) rfl, .of_eq rfl⟩
  | @fetched now f' hrun hf =>
    obtain rfl := Option.some.inj (b.fetcher.symm.trans hf)
    have hstep := FetchLoop.step_cases client now s.fetch f s.world
    refine ⟨d, _, b.of_same b.discoverer rfl rfl hstep.contains b.phase
      (fun h => absurd h (b.not_opened_of_running hrun)) rfl rfl ?_, .of_eq rfl⟩
    simp only [stepFetch]
    rw [FetchHistory.added_append, FetchHistory.added_event?, List.append_nil]
  | tracked hrun hfound hnext =>
    exact ⟨d, _, b.added hrun hfound fun found failures h =>
      hnext found failures (Option.some.inj h), .of_eq rfl⟩
  | discoveryEnded hrun _ hwaiting =>
    -- Discovery ends only where it waits, so that nothing that it found is lost.
    obtain ⟨wake, failures, hstage⟩ := hwaiting
    have hnone : s.awaited = [] := awaited_eq_nil fun _ _ h => by cases hstage.symm.trans h
    exact ⟨d, f, b.of_same b.discoverer rfl b.fetcher (fun _ => rfl) b.phase
      (fun h => absurd h (b.not_opened_of_running hrun)) rfl hnone.symm rfl, .of_eq rfl⟩
  | searched hrun _ _ hfetcher _ hsearch =>
    obtain ⟨wake, failures, hstage, hsearch⟩ := hsearch
    have hopened := b.not_opened_of_running hrun
    rcases hfetcher with ⟨rfl, -⟩ | ⟨rfl, -⟩
    · exact b.searched hstage hsearch.symm b.fetcher rfl b.phase hopened rfl rfl
    · have hcancelled := congrArg (Option.map Fetcher.cancel) b.fetcher
      exact b.searched hstage hsearch.symm hcancelled rfl b.phase hopened rfl rfl
  | finished hrun =>
    exact ⟨d, f, b.of_same b.discoverer rfl b.fetcher (fun _ => rfl) b.phase
      (fun h => absurd h (b.not_opened_of_running hrun)) rfl rfl rfl, .of_eq rfl⟩
  | failed | cancelled => exact ⟨d, f.cancel, b.cancelled rfl rfl rfl, .of_eq rfl⟩
  | snapshotBegun =>
    exact ⟨d, f, b.of_same b.discoverer rfl b.fetcher (fun _ => rfl)
      (fun h => b.phase (Phase.of_shift_eq h Phase.noConfusion))
      (fun h => b.unrun (Phase.of_shift_eq h Phase.noConfusion)) rfl rfl rfl, .of_eq rfl⟩
  | copied =>
    refine ⟨d, f, b.of_same b.discoverer rfl b.fetcher (fun _ => rfl)
      (fun h => b.phase (Phase.of_shift_eq h Phase.noConfusion))
      (fun h => b.unrun (Phase.of_shift_eq h Phase.noConfusion)) rfl rfl ?_, .of_eq rfl⟩
    rw [FetchHistory.added_append]
    exact List.append_nil _
  | closed _ hclose =>
    obtain ⟨d', hd', hmarked⟩ : ∃ d', (s.connector.close
        ⟨client, BrokerDiscoverer.discoverer client⟩ s.world).2.1.discoverer = some d' ∧
        d'.marked = d.marked := by
      rw [Connector.close_discoverer, b.discoverer]
      split
      · exact ⟨d, rfl, rfl⟩
      · exact ⟨d.close, rfl, rfl⟩
    rw [hclose] at hd'
    have hfetcher := congrArg (Option.map Fetcher.cancel) b.fetcher
    exact ⟨d', f.cancel, b.of_same hd' hmarked hfetcher (fun _ => rfl) Phase.noConfusion
      Phase.noConfusion rfl rfl rfl, .of_eq hmarked⟩

theorem performAll (b : s.Booked d f) (client : BrokerClient ω) (actions : List SessionAction) :
    ∃ d' f', (s.performAll ⟨client, BrokerDiscoverer.discoverer client⟩ actions).Booked d' f' ∧
      d.Remembers d' := by
  induction actions generalizing s d f with
  | nil => exact ⟨d, f, b, .of_eq rfl⟩
  | cons a actions ih =>
    have hstep := perform_step
      (Components.movesAnywhere ⟨client, BrokerDiscoverer.discoverer client⟩) s a
    obtain ⟨d₁, f₁, b₁, hfirst⟩ := b.of_step hstep
    obtain ⟨d', f', b', hrest⟩ := ih b₁
    exact ⟨d', f', b', hfirst.trans hrest⟩

end Booked

namespace Unmarked

/-- After a successful opening exactly what was merged is marked, and tracked. -/
theorem opened (u : s.Unmarked) {found : List Partition} {w : ω}
    (hopen : (s.connector.open ⟨client, BrokerDiscoverer.discoverer client⟩ s.world).result = .ok ())
    (hopened : (s.connector.open ⟨client, BrokerDiscoverer.discoverer client⟩ s.world).connector =
      s.connector.Opened found d) :
    Booked d { settings := Connector.fetchSettings s.connector.config
               offsets := s.connector.merge (s.connector.subtask.assign found) }
      { s with connector := s.connector.Opened found d, world := w } := by
  have hnone : s.awaited = [] := by rw [awaited, u.discovery]
  constructor
  case discoverer => rfl
  case fetcher => rfl
  case phase => exact Phase.noConfusion
  case unrun => exact fun _ => ⟨u.stopped, hnone⟩
  case marked =>
    intro p
    have hmarked := Connector.marked_of_open hopen hopened p
    simpa [hnone, awaited, u.discovery] using hmarked
  case tracked =>
    intro p
    simp [u.history, Connector.Opened]
  case once => simp [u.history, awaited, u.discovery]
  case later => simp [u.history, awaited, u.discovery]

theorem of_step (u : s.Unmarked) (h : s.Step ⟨client, BrokerDiscoverer.discoverer client⟩ G a s') :
    s'.Unmarked ∨ ∃ d f, s'.Booked d f := by
  cases h with
  | idle => exact Or.inl u
  | restored | openFailed | completionBegun | completed => exact Or.inl { u with }
  | opened _ _ hopen hopened => exact Or.inr ⟨_, _, u.opened hopen hopened⟩
  | begun hphase =>
    -- A run cannot begin, so that steps of a run do not happen either.
    rcases u.phase with h | h
    · cases hphase.symm.trans h
    · rw [hphase] at h
      cases h
  | fetched hrun | tracked hrun | discoveryEnded hrun | searched hrun | finished hrun
  | failed hrun => cases u.stopped.symm.trans hrun
  | snapshotBegun _ hf | copied _ hf => cases u.fetcher.symm.trans hf
  | snapshotEnded hplace =>
    rw [u.snapshots] at hplace
    cases hplace
  | cancelled =>
    refine Or.inl { u with fetcher := ?_, phase := Or.inr (Phase.isStopping_stop _) }
    exact congrArg (Option.map Fetcher.cancel) u.fetcher
  | closed _ hclose =>
    refine Or.inl { u with discoverer := ?_, fetcher := ?_, phase := Or.inr rfl }
    · have hnone := Connector.close_discoverer client s.connector s.world
      rw [hclose, u.discoverer] at hnone
      exact hnone.trans (ite_self none)
    · exact congrArg (Option.map Fetcher.cancel) u.fetcher

theorem performAll (u : s.Unmarked) (client : BrokerClient ω) (actions : List SessionAction) :
    (s.performAll ⟨client, BrokerDiscoverer.discoverer client⟩ actions).Unmarked ∨
      ∃ d f, (s.performAll ⟨client, BrokerDiscoverer.discoverer client⟩ actions).Booked d f := by
  induction actions generalizing s with
  | nil => exact Or.inl u
  | cons a actions ih =>
    have hstep := perform_step
      (Components.movesAnywhere ⟨client, BrokerDiscoverer.discoverer client⟩) s a
    rcases u.of_step hstep with u' | ⟨d, f, b⟩
    · exact ih u'
    · obtain ⟨d', f', b', -⟩ := b.performAll client actions
      exact Or.inr ⟨d', f', b'⟩

end Unmarked

theorem unmarked_start {config : SourceConfig} {index count : UInt64}
    {c : Connector BrokerDiscoverer} (hc : Connector.create config index count = .ok c) (w : ω) :
    (start c w).Unmarked := by
  obtain ⟨-, t, -, rfl⟩ := Connector.create_ok hc
  exact ⟨rfl, rfl, Or.inl rfl, rfl, rfl, rfl, rfl⟩

/-- A step of discovery tracks what is awaited, or leaves the offsets alone. -/
theorem Step.currentState_discover {δ : Type} {parts : Components δ ω} {s s' : Session δ ω}
    {now : Nat} (h : s.Step parts G (.discover now) s') :
    s'.connector.currentState = s.connector.currentState ∨
      s'.connector.currentState =
        (OffsetState.addPartitions s.connector.currentState .earliest s.awaited).2 := by
  cases h with
  | idle | discoveryEnded => exact Or.inl rfl
  | restored ha => cases ha
  | searched _ _ _ hfetcher =>
    left
    rcases hfetcher with ⟨rfl, -⟩ | ⟨rfl, -⟩
    · rfl
    · exact Owning.currentState_cancel s.connector
  | tracked _ hfound =>
    rw [awaited_of_adding hfound]
    cases hf : s.connector.fetcher with
    | none =>
      left
      simp only [Connector.currentState, ConnectorRun.track, hf]
      rfl
    | some f =>
      right
      simp only [Connector.currentState, ConnectorRun.track, hf]
      rfl

theorem contains_of_awaited {δ : Type} {s : Session δ ω} (parts : Components δ ω)
    (hf : s.connector.fetcher = some f) (hrun : s.isRunning = true) {p : Partition}
    (hp : p ∈ s.awaited) (now : Nat) :
    (s.perform parts (.discover now)).connector.currentState.contains p = true := by
  unfold awaited at hp
  split at hp
  next found failures hfound =>
    simp only [perform, hrun, hfound, stepDiscovery, ConnectorRun.stepDiscovery, ConnectorRun.track,
      Connector.currentState, hf]
    exact OffsetState.contains_addPartitions_iff.mpr (Or.inr hp)
  next => cases hp

/-- A cycle that succeeds marks every owned partition that it discovers. -/
theorem Booked.marked_of_discover (b : s.Booked d f) (hrun : s.isRunning = true)
    (hlive : s.connector.phase.isStopping = false) {wake : Nat} {failures : UInt32}
    (hstage : s.discovery = some ⟨.waiting wake, failures⟩) {ps : List Partition} {w : ω}
    (hps : d.discover client s.world = (.ok ps, w)) (now : Nat) :
    ∃ d' f', (s.perform ⟨client, BrokerDiscoverer.discoverer client⟩ (.discover now)).Booked d' f' ∧
      ∀ p ∈ ps, s.connector.subtask.owns p = true → d'.marked.contains p = true := by
  have hstep := perform_step
    (Components.movesAnywhere ⟨client, BrokerDiscoverer.discoverer client⟩) s (.discover now)
  obtain ⟨d', f', b', -⟩ := b.of_step hstep
  refine ⟨d', f', b', ?_⟩
  have hperform : (s.perform ⟨client, BrokerDiscoverer.discoverer client⟩ (.discover now)).connector =
      (s.toConnectorRun.discover (BrokerDiscoverer.discoverer client) now failures).connector := by
    simp only [perform, hrun, hstage, stepDiscovery, ConnectorRun.stepDiscovery, hlive,
      Bool.false_eq_true, if_false]
  rcases ConnectorRun.discover_marks client b.discoverer now failures with
    ⟨e, he, -⟩ | ⟨ps', found, d'', hps', hd'', -, hmarks⟩
  · rw [hps] at he
    cases he
  · rw [hps] at hps'
    obtain rfl := Except.ok.inj hps'
    rw [← hperform, b'.discoverer] at hd''
    obtain rfl := Option.some.inj hd''
    intro p hp hown
    exact (hmarks.marked p).mpr (Or.inr (Subtask.mem_assign.mpr ⟨hp, hown⟩))

/-- How the marks of the discoverer, the tracked partitions and those that discovery has added are
related at all times. A partition is awaited only between the two steps of one cycle. -/
structure InStep (d : BrokerDiscoverer) (s : Session BrokerDiscoverer ω) : Prop where
  marked : ∀ p, d.marked.contains p = true ↔
    s.connector.currentState.contains p = true ∨ p ∈ s.awaited
  awaited : ∀ p ∈ s.awaited, s.connector.currentState.contains p = false
  tracked : ∀ p, s.connector.currentState.contains p = true ↔
    s.connector.subscribed.contains p = true ∨ p ∈ s.history.added
  once : s.history.added.Nodup
  later : ∀ p ∈ s.history.added, s.connector.subscribed.contains p = false

omit [Libraries] in
theorem Booked.inStep (b : s.Booked d f) : s.InStep d := by
  have hstate := Connector.currentState_of_fetcher b.fetcher
  constructor
  case marked =>
    rw [hstate]
    exact b.marked
  case awaited =>
    rw [hstate]
    exact fun p hp => b.awaited_new hp
  case tracked =>
    rw [hstate]
    exact b.tracked
  case once => exact (List.nodup_append.mp b.once).1
  case later => exact fun p hp => b.later p (List.mem_append_left _ hp)

/-- With any client, whatever its metadata are and become, and any actions: from the opening on, the
marked partitions are the tracked ones, apart from those that a cycle of discovery is about to track.
After a cycle that succeeds, every owned partition that it discovered is tracked. A cycle leaves the
tracked offsets alone and brings in what it found at its beginning, each partition once and none that
was there at the opening; and no partition ever leaves, so that it cannot come in again. -/
theorem discovery_stays_in_step (client : BrokerClient ω) {config : SourceConfig}
    {index count : UInt64} {c : Connector BrokerDiscoverer}
    (hc : Connector.create config index count = .ok c) (w : ω) (actions : List SessionAction) :
    let parts : Components BrokerDiscoverer ω := ⟨client, BrokerDiscoverer.discoverer client⟩
    let s := (start c w).performAll parts actions
    (s.connector.fetcher.isSome = true → ∃ d, s.connector.discoverer = some d ∧ s.InStep d) ∧
    (∀ d ps w' wake failures, s.isRunning = true → s.connector.phase.isStopping = false →
      s.connector.discoverer = some d → s.discovery = some ⟨.waiting wake, failures⟩ →
      d.discover client s.world = (.ok ps, w') → ∀ now later,
        let t := (s.perform parts (.discover now)).performAll parts later
        t.awaited = [] → ∀ p ∈ ps, c.subtask.owns p = true →
          t.connector.currentState.contains p = true) ∧
    (∀ later p, s.connector.currentState.contains p = true →
      (s.performAll parts later).connector.currentState.contains p = true) ∧
    ∀ now,
      let t := s.perform parts (.discover now)
      (∀ p o, s.connector.currentState.get? p = some o → t.connector.currentState.get? p = some o) ∧
      (∀ p, s.connector.currentState.contains p = false → t.connector.currentState.contains p = true →
        p ∈ s.awaited ∧ t.connector.currentState.get? p = some .earliest) ∧
      (s.isRunning = true → ∀ p ∈ s.awaited, t.connector.currentState.contains p = true) := by
  intro parts s
  have hbooks := (unmarked_start hc w).performAll client actions
  refine ⟨?_, ?_, ?_, ?_⟩
  · intro hopened
    rcases hbooks with u | ⟨d, f, b⟩
    · rw [u.fetcher] at hopened
      cases hopened
    · exact ⟨d, b.discoverer, b.inStep⟩
  · intro d ps w' wake failures hrun hlive hd hstage hps now later t hnone p hp hown
    rcases hbooks with u | ⟨d₀, f, b⟩
    · cases u.stopped.symm.trans hrun
    obtain rfl := Option.some.inj (b.discoverer.symm.trans hd)
    have hsubtask : s.connector.subtask = c.subtask := performAll_subtask parts _ actions
    obtain ⟨d₁, f₁, b₁, hmarked⟩ := b.marked_of_discover hrun hlive hstage hps now
    -- The mark is never lost, and once nothing is awaited what is marked is tracked.
    obtain ⟨d', f', b', hremembers⟩ := b₁.performAll client later
    have hp' := (b'.inStep.marked p).mp (hremembers p (hmarked p hp (hsubtask ▸ hown)))
    exact hp'.resolve_right fun h => List.not_mem_nil (hnone ▸ h)
  · intro later p hp
    have law := FetchLaw.unrestricted parts
    have hstart : (start c w).Sound (fun _ => True) fun _ _ => True := .of_create hc trivial
    exact ((hstart.performAll law actions).precedes_performAll law later).contains hp
  · intro now t
    have hstep := perform_step parts.movesAnywhere s (.discover now)
    have hstate := hstep.currentState_discover
    refine ⟨?_, ?_, ?_⟩
    · intro p o ho
      rcases hstate with h | h
      · rw [h, ho]
      · rw [h, OffsetState.get?_addPartitions, ho]
        rfl
    · intro p hp hp'
      rcases hstate with h | h
      · rw [h, hp] at hp'
        cases hp'
      · rw [h, OffsetState.contains_addPartitions_iff, hp] at hp'
        have hawaited := hp'.resolve_left Bool.false_ne_true
        refine ⟨hawaited, ?_⟩
        rw [h, OffsetState.get?_addPartitions, SortedMap.contains_eq_false_iff.mp hp, if_pos hawaited]
        rfl
    · intro hrun p hp
      rcases hbooks with u | ⟨d, f, b⟩
      · cases u.stopped.symm.trans hrun
      · exact contains_of_awaited parts b.fetcher hrun hp now

end Session

end CheckpointedLog

namespace CheckpointedLog.Session

open scoped Pattern

/-- A second partition appears after the opening, and the first cycle of discovery finds it. -/
theorem discovery_stays_in_step_of_growth :
    let client := SharedBroker.client
    let c : Connector BrokerDiscoverer :=
      { config := { topics := .list ["t"], startup := .latest, discoveryIntervalMs := 10 }
        subtask := .single }
    let w : SharedBroker :=
      { broker := (MemoryBroker.ofMaxBatch 5).createTopic "t" 1
        upcoming := [[], [.createTopic "t" 2]] }
    let actions : List SessionAction := [.open, .run, .discover 10, .discover 10]
    let s := (start c w).performAll ⟨client, BrokerDiscoverer.discoverer client⟩ actions
    s.connector.currentState.entries = [(⟨"t", 0⟩, .latest), (⟨"t", 1⟩, .earliest)] ∧
      s.history.added = [⟨"t", 1⟩] ∧
      ∃ d, s.connector.discoverer = some d ∧ s.InStep d := by
  intro client c w actions s
  have hentries : s.connector.currentState.entries =
      [(⟨"t", 0⟩, .latest), (⟨"t", 1⟩, .earliest)] := by
    decide +kernel
  have hadded : s.history.added = [⟨"t", 1⟩] := by
    decide +kernel
  have hopened : s.connector.fetcher.isSome = true := by
    decide +kernel
  have hcreated : Connector.create c.config 0 1 = .ok c := by
    simp only [c]
    rfl
  clear_value client c w actions
  exact ⟨hentries, hadded, (discovery_stays_in_step client hcreated w actions).1 hopened⟩

end CheckpointedLog.Session
