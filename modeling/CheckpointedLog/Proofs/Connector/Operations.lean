import CheckpointedLog.Connector.Session
import CheckpointedLog.Proofs.Checkpoint.Pending
import CheckpointedLog.Proofs.Connector.Opening

namespace CheckpointedLog

variable {δ ω : Type}

/-- A relation between worlds that covers what discovery and closing do to the world. -/
structure Components.Moves (parts : Components δ ω) (G : ω → ω → Prop) : Prop where
  refl : ∀ w, G w w
  trans : ∀ {u v w}, G u v → G v w → G u w
  start : ∀ s w, G w (parts.discoverer.start s w).2.2
  discover : ∀ s w, G w (parts.discoverer.discover s w).2.2
  mark : ∀ p s w, G w (parts.discoverer.mark p s w).2.2
  closeDiscoverer : ∀ s w, G w (parts.discoverer.close s w).2.2
  close : ∀ w, G w (parts.client.close w).2

theorem Components.movesAnywhere (parts : Components δ ω) : parts.Moves fun _ _ => True where
  refl _ := trivial
  trans _ _ := trivial
  start _ _ := trivial
  discover _ _ := trivial
  mark _ _ _ := trivial
  closeDiscoverer _ _ := trivial
  close _ := trivial

/-- No partition is found anew that was not among those to be marked. -/
theorem Discoverer.markAll_subset (d : Discoverer δ ω) (ps : List Partition) (s : δ) (w : ω) :
    (d.markAll ps s w).1 ⊆ ps := by
  induction ps generalizing s w with
  | nil => exact List.Subset.refl _
  | cons p ps ih =>
    have hrest := ih (d.mark p s w).2.1 (d.mark p s w).2.2
    unfold markAll
    simp only
    split
    · exact List.cons_subset_cons p hrest
    · exact fun q hq => List.mem_cons_of_mem p (hrest hq)

namespace Phase

theorem of_shift_eq {p source target q : Phase} (h : p.shift source target = q) (hq : target ≠ q) :
    p = q := by
  unfold shift at h
  split at h
  · exact absurd h hq
  · exact h

theorem isStopping_stop (p : Phase) : p.stop.isStopping = true := by
  cases p <;> rfl

theorem ne_of_isStopping {p q : Phase} (h : p.isStopping = true) (hq : q.isStopping = false) :
    p ≠ q := by
  rintro rfl
  cases h.symm.trans hq

theorem isStopping_shift {p source target : Phase} (h : p.isStopping = true)
    (hsource : source.isStopping = false) : (p.shift source target).isStopping = true := by
  rwa [shift, if_neg (ne_of_isStopping h hsource)]

end Phase

namespace Connector

/-- Two connectors with the same configuration, subtask and restored offsets. -/
structure SameBase (c c' : Connector δ) : Prop where
  config : c'.config = c.config
  subtask : c'.subtask = c.subtask
  restored : c'.restored = c.restored

theorem SameBase.refl (c : Connector δ) : SameBase c c := ⟨rfl, rfl, rfl⟩

theorem SameBase.trans {a b c : Connector δ} (h : SameBase a b) (h' : SameBase b c) :
    SameBase a c :=
  ⟨h'.config.trans h.config, h'.subtask.trans h.subtask, h'.restored.trans h.restored⟩

theorem SameBase.merge [Libraries] {c c' : Connector δ} (h : SameBase c c') : c'.merge = c.merge := by
  funext owned
  rw [Connector.merge, Connector.merge, h.config, h.subtask, h.restored]

theorem create_ok [Libraries] {config : SourceConfig} {index count : UInt64} {c : Connector δ}
    (h : create config index count = .ok c) : config.validate = .ok () ∧
      ∃ t, Subtask.ofIndex index count = .ok t ∧ c = { config := config, subtask := t } := by
  unfold create at h
  obtain ⟨⟨⟩, hvalid, h⟩ := exists_of_bind_eq_ok h
  obtain ⟨t, ht, h⟩ := exists_of_bind_eq_ok h
  exact ⟨hvalid, t, ht, (Except.ok.inj h).symm⟩

/-- Restoring needs the first phase, and changes only the restored offsets. -/
theorem restoreFrom_cases (decoded : Except Snapshot.Fault OffsetState) (c : Connector δ) :
    (c.restoreFrom decoded).2 = c ∨ (c.phase = .created ∧
      ∃ s, decoded = .ok s ∧ (c.restoreFrom decoded).2 = { c with restored := some s }) := by
  unfold restoreFrom require
  by_cases hc : [Phase.created].contains c.phase = true
  · simp only [hc, if_true]
    cases decoded with
    | error fault => exact Or.inl rfl
    | ok s => exact Or.inr ⟨by simpa using hc, s, rfl, rfl⟩
  · left
    simp only [if_neg hc]

theorem restoreFrom_of_created {c : Connector δ} (hc : c.phase = .created)
    (decoded : Except Snapshot.Fault OffsetState) :
    (c.restoreFrom decoded).2 = { c with restored := decoded.toOption.or c.restored } := by
  have hallowed : c.require "restore state" [.created] = .ok () := by
    rw [require, hc]
    rfl
  simp only [restoreFrom, hallowed]
  cases decoded <;> rfl

theorem restore_ok {c : Connector δ} (hc : c.phase = .created) {bytes : Bytes} {s : OffsetState}
    (hs : Snapshot.read bytes = .ok s) :
    c.restore bytes = (.ok (), { c with restored := some s }) := by
  rw [restore, hs]
  simp [restoreFrom, require, hc]

theorem currentState_of_fetcher {c : Connector δ} {f : Fetcher} (h : c.fetcher = some f) :
    c.currentState = f.offsets := by
  rw [currentState, h]
  rfl

section Moves

variable {parts : Components δ ω} {G : ω → ω → Prop} (moves : parts.Moves G)
include moves

theorem markAll_moves (ps : List Partition) (s : δ) (w : ω) :
    G w (parts.discoverer.markAll ps s w).2.2 := by
  induction ps generalizing s w with
  | nil => exact moves.refl w
  | cons p ps ih => exact moves.trans (moves.mark p s w) (ih _ _)

theorem discoverWithRetry_moves (backoff : Backoff) (attempt : UInt32) (left waited : Nat) (s : δ)
    (w : ω) : G w (discoverWithRetry parts.discoverer backoff attempt left waited s w).2.2.2 := by
  induction left generalizing attempt waited s w with
  | zero =>
    have hmove := moves.discover s w
    unfold discoverWithRetry
    split
    next hd => rwa [hd] at hmove
    next hd =>
      rw [hd] at hmove
      split <;> exact hmove
  | succ left ih =>
    have hmove := moves.discover s w
    unfold discoverWithRetry
    split
    next hd => rwa [hd] at hmove
    next hd =>
      rw [hd] at hmove
      split
      · exact hmove
      · exact moves.trans hmove (ih _ _ _ _)

theorem open_moves [Libraries] (c : Connector δ) (w : ω) : G w (c.open parts w).world := by
  unfold «open»
  cases c.require "open" [.created] with
  | error e => exact moves.refl w
  | ok _ =>
    have hstart := moves.start (parts.discoverer.create c.config.topics) w
    rcases hs : parts.discoverer.start (parts.discoverer.create c.config.topics) w with ⟨_ | _, s, w₁⟩
    · rw [hs] at hstart
      simp only [hs]
      exact hstart
    rw [hs] at hstart
    have hdiscover := discoverWithRetry_moves moves c.config.backoff 0
      (c.config.maxDiscoveryAttempts.toNat - 1) 0 s w₁
    rcases hd : discoverWithRetry parts.discoverer c.config.backoff 0
      (c.config.maxDiscoveryAttempts.toNat - 1) 0 s w₁ with ⟨_ | ps, elapsed, s₂, w₂⟩
    · rw [hd] at hdiscover
      simp only [hs, hd]
      exact moves.trans (moves.trans hstart hdiscover) (moves.closeDiscoverer s₂ w₂)
    · rw [hd] at hdiscover
      simp only [hs, hd]
      exact moves.trans (moves.trans hstart hdiscover) (markAll_moves moves _ s₂ w₂)

theorem closeDiscoverer_moves (c : Connector δ) (w : ω) : ∃ result d w', G w w' ∧
    c.closeDiscoverer parts.discoverer w = (result, { c with discoverer := d }, w') := by
  unfold closeDiscoverer
  cases hd : c.discoverer with
  | none => exact ⟨.ok (), c.discoverer, w, moves.refl w, rfl⟩
  | some s => exact ⟨_, _, _, moves.closeDiscoverer s w, rfl⟩

theorem closeFetcher_moves (c : Connector δ) (w : ω) : ∃ result w', G w w' ∧
    c.closeFetcher parts.client w =
      (result, { c with fetcher := c.fetcher.map Fetcher.cancel }, w') := by
  unfold closeFetcher
  split
  next hf =>
    have hsame : c.fetcher.map Fetcher.cancel = c.fetcher := by
      rw [hf]
      rfl
    rw [hsame]
    exact ⟨.ok (), w, moves.refl w, rfl⟩
  next f hf =>
    rw [hf]
    exact ⟨_, _, moves.close w, rfl⟩

/-- Closing cancels fetching, asks the discoverer and the client to close, and changes nothing else. -/
theorem close_cases (c : Connector δ) (w : ω) :
    (c.close parts w).2 = (c, w) ∨ ∃ d w', G w w' ∧ (c.close parts w).2 =
      ({ c with phase := .closed, discoverer := d, fetcher := c.fetcher.map Fetcher.cancel }, w') := by
  unfold close
  by_cases hphase : c.phase = .closed
  · rw [if_pos hphase]
    exact Or.inl rfl
  rw [if_neg hphase]
  right
  -- The discoverer is closed first, then the fetcher with its client; either may be missing.
  obtain ⟨first, d, w₁, hmove, hdiscoverer⟩ := closeDiscoverer_moves moves c.cancel w
  obtain ⟨second, w₂, hmove', hfetcher⟩ :=
    closeFetcher_moves moves { c.cancel with discoverer := d } w₁
  have hcancel : (c.fetcher.map Fetcher.cancel).map Fetcher.cancel = c.fetcher.map Fetcher.cancel := by
    cases c.fetcher <;> rfl
  refine ⟨d, w₂, moves.trans hmove hmove', ?_⟩
  simp only [hdiscoverer, hfetcher]
  simp only [cancel, hcancel]

end Moves

theorem close_phase (parts : Components δ ω) (c : Connector δ) (w : ω) :
    (c.close parts w).2.1.phase = .closed := by
  unfold close
  split
  next hclosed => exact hclosed
  next => rfl

theorem beginSnapshot_ok {c c' : Connector δ} (h : c.beginSnapshot = (.ok (), c')) :
    c.phase ≠ .created ∧ (∃ f, c.fetcher = some f) ∧
      c' = { c with phase := c.phase.shift .running .snapshotting } := by
  unfold beginSnapshot require at h
  by_cases hallowed : [Phase.opened, .running, .snapshotting].contains c.phase = true
  · simp only [hallowed, if_true] at h
    cases hf : c.fetcher with
    | none =>
      simp only [hf] at h
      cases h
    | some f =>
      simp only [hf] at h
      refine ⟨?_, ⟨f, rfl⟩, (Prod.mk.inj h).2.symm⟩
      intro hcreated
      rw [hcreated] at hallowed
      exact absurd hallowed (by decide)
  · simp only [if_neg hallowed] at h
    cases h

theorem beginSnapshot_error {c c' : Connector δ} {e : SourceError}
    (h : c.beginSnapshot = (.error e, c')) : c' = c := by
  unfold beginSnapshot at h
  split at h
  · exact (Prod.mk.inj h).2.symm
  · split at h
    · exact (Prod.mk.inj h).2.symm
    · cases h

theorem snapshot_ok {c c' : Connector δ} {id : UInt64} {bytes : Bytes}
    (h : c.snapshot id = (.ok bytes, c')) :
    ∃ f, c.fetcher = some f ∧ bytes = Snapshot.write f.offsets := by
  unfold snapshot at h
  split at h
  · cases h
  · next c₁ hbegin =>
    obtain ⟨-, ⟨f, hf⟩, rfl⟩ := beginSnapshot_ok hbegin
    refine ⟨f, hf, ?_⟩
    have hbytes := Except.ok.inj (Prod.mk.inj h).1
    rw [← hbytes, ← currentState_of_fetcher hf]
    rfl

/-- A completion that goes on began while the connector was fetching for checkpoints. -/
theorem completionAnswer?_eq_none {c : Connector δ} (h : c.completionAnswer? = none) :
    c.config.commitMode = .onCheckpoints ∧ c.phase.isStopping = false ∧
      ∃ f, c.fetcher = some f := by
  unfold completionAnswer? at h
  split at h
  · cases h
  next hmode =>
  split at h
  · cases h
  next hlive =>
  split at h
  · cases h
  next f hf => exact ⟨Decidable.not_not.mp hmode, Bool.eq_false_iff.mpr hlive, f, hf⟩

/-- What has to be the case for the completion of a checkpoint to ask for a commit of positions. -/
structure CompletesWith (c : Connector δ) (id : UInt64) (offsets positions : OffsetMap) : Prop where
  pending : c.pending.get? id = some offsets
  nonempty : offsets.isEmpty = false
  positions : Fetcher.positionsAfter offsets = .ok positions

/-- Completing a checkpoint drops pending offsets and may commit those of this checkpoint. -/
theorem commitPending_cases (client : BrokerClient ω) (id : UInt64) (c : Connector δ) (w : ω) :
    ∃ w', c.commitPending client id w =
        ({ c with pending := (c.pending.complete id).2 }, w') ∧
      (w' = w ∨ ∃ offsets positions, c.CompletesWith id offsets positions ∧
        w' = (client.commit positions w).2) := by
  obtain ⟨hid, -, -⟩ := c.pending.complete_cases id
  unfold commitPending
  split
  next pending hcomplete => exact ⟨w, by rw [hcomplete], Or.inl rfl⟩
  next offsets pending hcomplete =>
    rw [hcomplete] at hid
    refine ⟨_, by rw [hcomplete], ?_⟩
    unfold Fetcher.commit
    split
    · exact Or.inl rfl
    next hempty =>
    split
    · exact Or.inl rfl
    next positions hpositions =>
      exact Or.inr ⟨offsets, positions, ⟨hid.symm, Bool.eq_false_iff.mpr hempty, hpositions⟩, rfl⟩

end Connector

namespace ConnectorRun

variable {r r' : ConnectorRun δ ω}

/-- A run begins in one phase only, and it has found nothing yet. -/
theorem begin_ok {c : Connector δ} {w : ω} (h : begin c w = .ok r) :
    c.phase = .opened ∧ ∃ discovery,
      r = { discovery := discovery, connector := { c with phase := .running }, world := w } ∧
      ∀ found failures, discovery ≠ some ⟨.adding found, failures⟩ := by
  unfold begin at h
  split at h
  next hphase =>
    refine ⟨hphase, _, (Except.ok.inj h).symm, fun found failures hd => ?_⟩
    obtain ⟨interval, -, hstage⟩ := Option.map_eq_some_iff.mp hd
    cases hstage
  next => split at h <;> cases h

/-- A failed discovery may cancel fetching, with a failure that the run reports, and there is nothing to
track after it. -/
theorem discoveryFailed_cases (now : Nat) (failures : UInt32) (e : SourceError)
    (r : ConnectorRun δ ω) :
    ∃ discovery failure fetcher,
      r.discoveryFailed now failures e = { r with
        discovery := discovery, failure := failure
        connector := { r.connector with fetcher := fetcher } } ∧
      (fetcher = r.connector.fetcher ∧ failure = r.failure ∨
        fetcher = r.connector.fetcher.map Fetcher.cancel ∧ failure.isSome = true) ∧
      ∀ found failures, discovery ≠ some ⟨.adding found, failures⟩ := by
  unfold discoveryFailed
  simp only
  split
  · refine ⟨none, _, _, rfl, Or.inr ⟨rfl, rfl⟩, fun _ _ hd => ?_⟩
    cases hd
  · refine ⟨_, r.failure, r.connector.fetcher, rfl, Or.inl ⟨rfl, rfl⟩, fun _ _ hd => ?_⟩
    cases hd

/-- Looking for partitions changes the discoverer and the world, and may cancel fetching. What is found
is owned. -/
theorem discover_cases {parts : Components δ ω} {G : ω → ω → Prop} (moves : parts.Moves G)
    (now : Nat) (failures : UInt32) (r : ConnectorRun δ ω) :
    ∃ discovery failure discoverer fetcher w,
      r.discover parts.discoverer now failures = { r with
        discovery := discovery, failure := failure
        connector := { r.connector with discoverer := discoverer, fetcher := fetcher }, world := w } ∧
      G r.world w ∧
      (fetcher = r.connector.fetcher ∧ failure = r.failure ∨
        fetcher = r.connector.fetcher.map Fetcher.cancel ∧ failure.isSome = true) ∧
      ∀ found failures, discovery = some ⟨.adding found, failures⟩ →
        ∀ p ∈ found, r.connector.subtask.owns p = true := by
  unfold discover
  cases hd : r.connector.discoverer with
  | none =>
    obtain ⟨discovery, failure, fetcher, h, hfetcher, hnone⟩ := discoveryFailed_cases now failures
      (r.connector.phase.refusal "discover partitions") r
    refine ⟨discovery, failure, none, fetcher, r.world, ?_, moves.refl _, hfetcher,
      fun found failures hfound => absurd hfound (hnone found failures)⟩
    simp only [h, hd]
  | some s =>
    have hmove := moves.discover s r.world
    rcases hdiscovered : parts.discoverer.discover s r.world with ⟨e | ps, s', w'⟩
    · rw [hdiscovered] at hmove
      simp only [hdiscovered]
      obtain ⟨discovery, failure, fetcher, h, hfetcher, hnone⟩ := discoveryFailed_cases now failures e
        { r with connector := { r.connector with discoverer := some s' }, world := w' }
      exact ⟨discovery, failure, some s', fetcher, w', h, hmove, hfetcher,
        fun found failures hfound => absurd hfound (hnone found failures)⟩
    · rw [hdiscovered] at hmove
      simp only [hdiscovered]
      have hmark := moves.trans hmove
        (Connector.markAll_moves moves (r.connector.subtask.assign ps) s' w')
      refine ⟨_, r.failure, _, _, _, rfl, hmark, Or.inl ⟨rfl, rfl⟩,
        fun found failures hfound p hp => ?_⟩
      obtain ⟨hstage, -⟩ := DiscoveryLoop.mk.inj (Option.some.inj hfound)
      obtain rfl := DiscoveryStage.adding.inj hstage
      exact (Subtask.mem_assign.mp (parts.discoverer.markAll_subset _ s' w' hp)).2

/-- Only a run in which nothing failed ends without stopping the connector. -/
theorem finish_cases (result : Except SourceError Unit) (r : ConnectorRun δ ω) :
    ((r.finish result).1 = r ∧ result = .ok () ∧ r.failure = none) ∨
      (r.finish result).1 = r.cancel := by
  unfold finish
  split
  · exact Or.inr rfl
  · exact Or.inr rfl
  next hfailure => exact Or.inl ⟨rfl, rfl, hfailure⟩

end ConnectorRun

end CheckpointedLog
