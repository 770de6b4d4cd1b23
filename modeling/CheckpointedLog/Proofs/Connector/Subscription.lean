import CheckpointedLog.Proofs.Connector.Bookkeeping
import CheckpointedLog.Proofs.Connector.Interleaving

namespace CheckpointedLog

variable [Libraries] {ω : Type}

namespace BrokerDiscoverer

/-- The discoverer looks for the topics, and its expression is that of their pattern. -/
def LooksFor (topics : Topics) (d : BrokerDiscoverer) : Prop := d.topics = topics ∧ d.Fits

theorem LooksFor.markAll {topics : Topics} {d : BrokerDiscoverer} (h : d.LooksFor topics)
    (client : BrokerClient ω) (ps : List Partition) (w : ω) :
    ((discoverer client).markAll ps d w).2.1.LooksFor topics := by
  induction ps generalizing d with
  | nil => exact h
  | cons p ps ih => exact ih (d := { d with marked := d.marked.insert p () }) ⟨h.1, h.2⟩

end BrokerDiscoverer

/-- What an opening found is of covered topics, and so is what its discoverer looks for. -/
theorem Connector.open_covered {client : BrokerClient ω} {c : Connector BrokerDiscoverer} {w : ω}
    {d : BrokerDiscoverer} {found : List Partition}
    (h : (c.open ⟨client, BrokerDiscoverer.discoverer client⟩ w).result = .ok ())
    (hc : (c.open ⟨client, BrokerDiscoverer.discoverer client⟩ w).connector = c.Opened found d) :
    d.LooksFor c.config.topics ∧ ∀ p, (c.merge (c.subtask.assign found)).contains p = true →
      keepsTopic c.config p.topic = true := by
  obtain ⟨s, w₁, ps, elapsed, s₂, w₂, -, hs, hd, hafter, -⟩ := open_ok h
  have hconnector := hc.symm.trans hafter
  constructor
  · obtain ⟨t, v, rfl, ht⟩ := discoverWithRetry_ok (P := fun t _ => t = s) (fun _ _ h => h) rfl hd
    have hsame : s₂ = t := (congrArg (fun x => x.2.1) ht).symm
    have hlooks : s₂.LooksFor c.config.topics := hsame ▸ BrokerDiscoverer.fits_of_start hs
    rw [Option.some.inj (congrArg Connector.discoverer hconnector)]
    exact hlooks.markAll client _ w₂
  · intro p hp
    rw [show c.merge (c.subtask.assign found) = c.merge (c.subtask.assign ps) from
      congrArg Connector.subscribed hconnector] at hp
    rcases (contains_merge_iff c _ p).mp hp with hp | ⟨restored, -, -, hkept⟩
    · exact keepsTopic_iff.mpr (Or.inr (discoverWithRetry_covered hs hd (Subtask.mem_assign.mp hp).1))
    · exact keepsTopic_iff.mpr hkept.2

/-- A cycle of discovery looks for the same topics as before, and finds partitions of covered ones. -/
theorem ConnectorRun.discover_covered (client : BrokerClient ω) {r : ConnectorRun BrokerDiscoverer ω}
    {topics : Topics} (hr : ∀ d, r.connector.discoverer = some d → d.LooksFor topics) (now : Nat)
    (failures : UInt32) :
    let r' := r.discover (BrokerDiscoverer.discoverer client) now failures
    (∀ d, r'.connector.discoverer = some d → d.LooksFor topics) ∧
      ∀ found failures, r'.discovery = some ⟨.adding found, failures⟩ →
        ∀ p ∈ found, topics.covers p.topic = true := by
  intro r'
  cases hd : r.connector.discoverer with
  | none =>
    have hr' : r' =
        r.discoveryFailed now failures (r.connector.phase.refusal "discover partitions") := by
      simp only [r', discover, hd]
    obtain ⟨discovery, failure, fetcher, hfailed, -, hnone⟩ := discoveryFailed_cases now failures
      (r.connector.phase.refusal "discover partitions") r
    rw [hr', hfailed]
    exact ⟨hr, fun found failures hfound => absurd hfound (hnone found failures)⟩
  | some d =>
    obtain ⟨htopics, hfits⟩ := hr d hd
    rcases hask : d.discover client r.world with ⟨e | ps, w⟩
    · have hr' : r' = { r with
          connector := { r.connector with discoverer := some d }, world := w }.discoveryFailed
            now failures e := by
        simp only [r', discover, hd, BrokerDiscoverer.discoverer, hask]
      obtain ⟨discovery, failure, fetcher, hfailed, -, hnone⟩ := discoveryFailed_cases now failures e
        { r with connector := { r.connector with discoverer := some d }, world := w }
      rw [hr', hfailed]
      refine ⟨fun d' hd' => ?_, fun found failures hfound => absurd hfound (hnone found failures)⟩
      obtain rfl := Option.some.inj hd'
      exact ⟨htopics, hfits⟩
    · -- The owned ones of the listed partitions are marked, and those that are new are found.
      have hlooks' := BrokerDiscoverer.LooksFor.markAll ⟨htopics, hfits⟩ client
        (r.connector.subtask.assign ps) w
      have hsubset := (BrokerDiscoverer.discoverer client).markAll_subset
        (r.connector.subtask.assign ps) d w
      rcases hmark : (BrokerDiscoverer.discoverer client).markAll (r.connector.subtask.assign ps) d w
        with ⟨new, d', w'⟩
      rw [hmark] at hlooks' hsubset
      have hr' : r' = { r with
          discovery := some ⟨.adding new, failures⟩
          connector := { r.connector with discoverer := some d' }, world := w' } := by
        simp only [BrokerDiscoverer.discoverer] at hmark
        simp only [r', discover, hd, BrokerDiscoverer.discoverer, hask, hmark]
      rw [hr']
      refine ⟨fun d'' hd'' => Option.some.inj hd'' ▸ hlooks', fun found failures' hfound p hp => ?_⟩
      obtain rfl : new = found :=
        DiscoveryStage.adding.inj (DiscoveryLoop.mk.inj (Option.some.inj hfound)).1
      have hlisted := (Subtask.mem_assign.mp (hsubset hp)).1
      exact htopics ▸ BrokerDiscoverer.discover_covered hfits hask hlisted

namespace Session

/-- What a session tracks, and what it is about to track, is of topics that it is to keep. -/
structure Covering (s : Session BrokerDiscoverer ω) : Prop where
  tracked : ∀ p, s.connector.currentState.contains p = true →
    Connector.keepsTopic s.connector.config p.topic = true
  found : ∀ found failures, s.discovery = some ⟨.adding found, failures⟩ →
    ∀ p ∈ found, s.connector.config.topics.covers p.topic = true
  discoverer : ∀ d, s.connector.discoverer = some d → d.LooksFor s.connector.config.topics

namespace Covering

variable {client : BrokerClient ω} {G : ω → ω → Prop} {s s' : Session BrokerDiscoverer ω}
  {a : SessionAction}

/-- Nothing that was not tracked is tracked, and discovery goes on with the same topics or ends. -/
theorem of_same (h : s.Covering) (hconfig : s'.connector.config = s.connector.config)
    (htracked : ∀ p, s'.connector.currentState.contains p = true →
      s.connector.currentState.contains p = true)
    (hdiscovery : ∀ found failures, s'.discovery = some ⟨.adding found, failures⟩ →
      s.discovery = some ⟨.adding found, failures⟩)
    (hdiscoverer : s'.connector.discoverer = s.connector.discoverer) : s'.Covering where
  tracked p hp := hconfig ▸ h.tracked p (htracked p hp)
  found found failures hfound := hconfig ▸ h.found found failures (hdiscovery found failures hfound)
  discoverer d hd := hconfig ▸ h.discoverer d (hdiscoverer ▸ hd)

theorem tracked_found (h : s.Covering) {found : List Partition} {failures : UInt32}
    (hfound : s.discovery = some ⟨.adding found, failures⟩) {p : Partition}
    (hp : (ConnectorRun.track found s.connector).currentState.contains p = true) :
    Connector.keepsTopic s.connector.config p.topic = true := by
  cases hf : s.connector.fetcher with
  | none =>
    simp only [Connector.currentState, ConnectorRun.track, hf] at hp
    cases hp
  | some f =>
    simp only [Connector.currentState, ConnectorRun.track, hf] at hp
    rcases OffsetState.contains_addPartitions_iff.mp hp with hp | hp
    · apply h.tracked p
      rwa [Connector.currentState_of_fetcher hf]
    · exact Connector.keepsTopic_iff.mpr (Or.inr (h.found found failures hfound p hp))

theorem of_step (h : s.Covering) (hstep : s.Step ⟨client, BrokerDiscoverer.discoverer client⟩ G a s') :
    s'.Covering := by
  cases hstep with
  | idle => exact h
  | opened _ _ hopen hopened =>
    obtain ⟨hlooks, hkeeps⟩ := Connector.open_covered hopen hopened
    exact ⟨hkeeps, h.found, fun d hd => Option.some.inj hd ▸ hlooks⟩
  | fetched _ hf =>
    refine h.of_same rfl (fun p hp => ?_) (fun _ _ hd => hd) rfl
    rw [Connector.currentState_of_fetcher hf]
    exact ((FetchLoop.step_cases _ _ s.fetch _ s.world).contains p).symm.trans hp
  | begun _ hdiscovery =>
    exact h.of_same rfl (fun _ hp => hp)
      (fun found failures hd => absurd hd (hdiscovery found failures)) rfl
  | tracked _ hfound hnext =>
    refine ⟨fun p hp => h.tracked_found hfound hp, fun found failures hd => ?_, h.discoverer⟩
    exact absurd (Option.some.inj hd) (hnext found failures)
  | @searched now _ _ _ _ _ _ _ _ hfetcher _ hsearch =>
    obtain ⟨wake, failures, -, hsearch⟩ := hsearch
    obtain ⟨hlooks, hfound⟩ := ConnectorRun.discover_covered client h.discoverer now failures
    rw [hsearch] at hlooks hfound
    refine ⟨fun p hp => h.tracked p ?_, hfound, hlooks⟩
    rcases hfetcher with ⟨rfl, -⟩ | ⟨rfl, -⟩
    · exact hp
    · exact Owning.currentState_cancel s.connector ▸ hp
  | discoveryEnded => exact h.of_same rfl (fun _ hp => hp) nofun rfl
  | restored | openFailed | finished | snapshotBegun | copied | snapshotEnded | completionBegun
  | completed =>
    exact h.of_same rfl (fun _ hp => hp) (fun _ _ hd => hd) rfl
  | failed | cancelled =>
    exact h.of_same rfl (fun p hp => Owning.currentState_cancel s.connector ▸ hp) (fun _ _ hd => hd) rfl
  | @closed d _ _ hclose =>
    refine ⟨fun p hp => h.tracked p (Owning.currentState_cancel s.connector ▸ hp), h.found, ?_⟩
    intro d' hd'
    have hclosed := Connector.close_discoverer client s.connector s.world
    rw [hclose, show d = some d' from hd'] at hclosed
    split at hclosed
    · exact h.discoverer d' hclosed.symm
    · obtain ⟨d'', hd'', rfl⟩ := Option.map_eq_some_iff.mp hclosed.symm
      exact h.discoverer d'' hd''

theorem start {c : Connector BrokerDiscoverer} (hfetcher : c.fetcher = none)
    (hdiscoverer : c.discoverer = none) (w : ω) : (start c w).Covering where
  tracked p hp := by
    simp only [Session.start, Connector.currentState, hfetcher] at hp
    cases hp
  found := nofun
  discoverer d hd := by cases hdiscoverer.symm.trans hd

theorem of_interleaves (h : s.Covering) {R : ω → ω → Prop}
    {allowed : Session BrokerDiscoverer ω → SessionAction → Prop}
    (hr : Interleaves ⟨client, BrokerDiscoverer.discoverer client⟩ R allowed s s') : s'.Covering := by
  apply hr.keeps h
  · exact fun t a _ ht => ht.of_step (perform_step
      (Components.movesAnywhere ⟨client, BrokerDiscoverer.discoverer client⟩) t a)
  · exact fun t w _ ht => ⟨ht.tracked, ht.found, ht.discoverer⟩

end Covering

theorem Owning.of_interleaves {δ : Type} {parts : Components δ ω} {s s' : Session δ ω} (h : s.Owning)
    {R : ω → ω → Prop} {allowed : Session δ ω → SessionAction → Prop}
    (hr : Interleaves parts R allowed s s') : s'.Owning := by
  apply hr.keeps h
  · exact fun t a _ ht => ht.of_step (perform_step parts.movesAnywhere t a)
  · exact fun t w _ ht => ⟨ht.tracked, ht.found⟩

end Session

end CheckpointedLog
