import CheckpointedLog.Broker.Memory
import CheckpointedLog.Connector.DiscoveryTrace
import CheckpointedLog.Pattern.Reader
import CheckpointedLog.Proofs.Connector.Lifecycle
import CheckpointedLog.Proofs.Fetch.Ending
import Mathlib.Order.WellFounded

/-!
When periodic discovery looks for partitions, and when it gives up. The times and the end follow from the
outcomes of the cycles alone: the counter of the loop is the number of failures since the last success.
-/
namespace CheckpointedLog

variable {δ ω : Type}

namespace DiscoveryCycle

variable {config : SourceConfig} {cycles : List DiscoveryCycle}

theorem streak_append (cycles : List DiscoveryCycle) (x : DiscoveryCycle) :
    streak (cycles ++ [x]) = if x.failure.isSome then streak cycles + 1 else 0 := by
  rw [streak, List.reverse_append, List.reverse_singleton, List.singleton_append, List.takeWhile_cons]
  split
  · rfl
  · rfl

theorem lastEnd_append (cycles : List DiscoveryCycle) (x : DiscoveryCycle) :
    lastEnd (cycles ++ [x]) = x.ended := by
  rw [lastEnd, List.getLast?_concat]
  rfl

/-- The counter of the loop leads to the wait that the cycles call for. -/
theorem nextDiscovery_eq (hinterval : 0 < config.discoveryIntervalMs) {failures : UInt32}
    (hfailures : failures.toNat = streak cycles) :
    ConnectorRun.nextDiscovery config (lastEnd cycles) failures =
      ⟨.waiting (due config cycles), failures⟩ := by
  rw [ConnectorRun.nextDiscovery, due, pauseAfter, ← hfailures]
  cases hn : failures.toNat with
  | zero =>
    have hzero : failures = 0 := UInt32.toNat_inj.mp hn
    rw [if_pos hzero, SourceConfig.discoveryInterval?, if_pos hinterval]
    rfl
  | succ n =>
    have hne : failures ≠ 0 := by
      rintro rfl
      cases hn
    have hbefore : failures - 1 = UInt32.ofNat n := by
      have hsucc : failures = UInt32.ofNat n + 1 := by
        rw [← UInt32.ofNat_toNat (x := failures), hn, UInt32.ofNat_add]
        rfl
      rw [hsucc, UInt32.add_sub_cancel]
    rw [if_neg hne, hbefore]

theorem nextDiscovery_append (hinterval : 0 < config.discoveryIntervalMs) {failures : UInt32}
    {x : DiscoveryCycle} (hfailures : failures.toNat = streak (cycles ++ [x])) :
    ConnectorRun.nextDiscovery config x.ended failures =
      ⟨.waiting (due config (cycles ++ [x])), failures⟩ := by
  rw [← nextDiscovery_eq hinterval hfailures, lastEnd_append]

theorem ended_le_due (config : SourceConfig) (cycles : List DiscoveryCycle) (x : DiscoveryCycle) :
    x.ended ≤ due config (cycles ++ [x]) := by
  rw [due, lastEnd_append]
  exact Nat.le_add_right _ _

end DiscoveryCycle

variable [Libraries]

namespace Session

/-- A run goes on, and the connector was not asked to stop. -/
structure Going (config : SourceConfig) (s : Session δ ω) : Prop where
  config : s.connector.config = config
  isRunning : s.isRunning = true
  phase : s.connector.phase = .running ∨ s.connector.phase = .snapshotting
  fetcher : s.connector.fetcher.isSome = true

def FetchCancelled (s : Session δ ω) : Prop :=
  ∃ f, s.connector.fetcher = some f ∧ f.isCancelled = true

variable {parts : Components δ ω} {G : ω → ω → Prop} {config : SourceConfig} {s s' : Session δ ω}
  {a : SessionAction}

namespace Going

omit [Libraries] in
theorem isStopping (h : s.Going config) : s.connector.phase.isStopping = false := by
  rcases h.phase with hp | hp <;> rw [hp] <;> rfl

/-- What a step that has nothing to do with discovery leaves alone. -/
structure Keeps (config : SourceConfig) (s s' : Session δ ω) : Prop where
  going : s'.Going config
  discovery : s'.discovery = s.discovery
  failure : s'.failure = s.failure
  cancelled : s.FetchCancelled → s'.FetchCancelled

omit [Libraries] in
theorem of_same (h : s.Going config) (hconfig : s'.connector.config = s.connector.config)
    (hrun : s'.isRunning = s.isRunning)
    (hphase : s'.connector.phase = .running ∨ s'.connector.phase = .snapshotting)
    (hfetcher : s'.connector.fetcher = s.connector.fetcher) (hdiscovery : s'.discovery = s.discovery)
    (hfailure : s'.failure = s.failure) : Keeps config s s' where
  going := ⟨hconfig.trans h.config, hrun.trans h.isRunning, hphase, hfetcher ▸ h.fetcher⟩
  discovery := hdiscovery
  failure := hfailure
  cancelled hf := by rwa [FetchCancelled, hfetcher]

theorem called (h : s.Going config) (ha : a.leavesRun = true) (hstep : s.Step parts G a s') :
    Keeps config s s' ∧ s'.fetch = s.fetch := by
  have hne {p : Phase} (hp : p ≠ .running) (hp' : p ≠ .snapshotting) : s.connector.phase ≠ p := by
    rcases h.phase with hs | hs <;> rw [hs]
    · exact hp.symm
    · exact hp'.symm
  cases hstep with
  | idle | openFailed | snapshotEnded | completionBegun | completed =>
    exact ⟨h.of_same rfl rfl h.phase rfl rfl rfl, rfl⟩
  | restored _ hphase | opened hphase | begun hphase => exact absurd hphase (hne nofun nofun)
  | snapshotBegun | copied =>
    refine ⟨h.of_same rfl rfl ?_ rfl rfl rfl, rfl⟩
    rcases h.phase with hs | hs <;> simp only [Connector.resume, hs] <;> decide
  | fetched | tracked | discoveryEnded | searched | finished | failed | cancelled | closed => cases ha

theorem fetched (h : s.Going config) (parts : Components δ ω) (now : Nat) :
    Keeps config s (s.perform parts (.fetch now)) ∧
      (s.FetchCancelled → s.fetch.result? = none →
        (s.perform parts (.fetch now)).fetch.stage.rank < s.fetch.stage.rank) := by
  obtain ⟨f, hf⟩ := Option.isSome_iff_exists.mp h.fetcher
  have hstep := FetchLoop.step_cases parts.client now s.fetch f s.world
  have hperform : s.perform parts (.fetch now) = s.stepFetch parts.client now f := by
    simp only [perform, h.isRunning, hf]
  rw [hperform]
  refine ⟨⟨⟨h.config, h.isRunning, h.phase, rfl⟩, rfl, rfl, ?_⟩, ?_⟩
  · rintro ⟨f', hf', hcancelled⟩
    obtain rfl := Option.some.inj (hf.symm.trans hf')
    exact ⟨_, rfl, hstep.isCancelled.trans hcancelled⟩
  · rintro ⟨f', hf', hcancelled⟩ hlive
    obtain rfl := Option.some.inj (hf.symm.trans hf')
    exact hstep.rank_lt hcancelled hlive

end Going

theorem Going.perform_search (h : s.Going config) (parts : Components δ ω) (now : Nat) {wake : Nat}
    {failures : UInt32} (hdiscovery : s.discovery = some ⟨.waiting wake, failures⟩) :
    s.perform parts (.discover now) =
      { s with toConnectorRun := s.toConnectorRun.discover parts.discoverer now failures } := by
  simp only [perform, h.isRunning, hdiscovery, stepDiscovery, ConnectorRun.stepDiscovery,
    h.isStopping, Option.toList_none, List.append_nil, Bool.false_eq_true, if_false]

theorem Going.perform_track (h : s.Going config) (parts : Components δ ω) (now : Nat)
    {found : List Partition} {failures : UInt32}
    (hdiscovery : s.discovery = some ⟨.adding found, failures⟩) :
    s.perform parts (.discover now) = { s with
      discovery := some (ConnectorRun.nextDiscovery s.connector.config now 0)
      connector := ConnectorRun.track found s.connector
      history := s.history ++ [.added found .earliest] } := by
  simp only [perform, h.isRunning, hdiscovery, stepDiscovery, ConnectorRun.stepDiscovery,
    Option.toList_some]

omit [Libraries] in
theorem discover_of_search_ok {d : Discoverer δ ω} {ps : List Partition} (h : s.search d = .ok ps)
    (now : Nat) (failures : UInt32) : ∃ found discoverer w,
      s.toConnectorRun.discover d now failures = { s.toConnectorRun with
        discovery := some ⟨.adding found, failures⟩
        connector := { s.connector with discoverer := discoverer }, world := w } := by
  unfold search at h
  unfold ConnectorRun.discover
  cases hd : s.connector.discoverer with
  | none =>
    rw [hd] at h
    cases h
  | some state =>
    simp only [hd] at h
    rcases hfound : d.discover state s.world with ⟨answer, state', w⟩
    rw [hfound] at h
    obtain rfl : answer = .ok ps := h
    exact ⟨_, _, _, by simp only [hfound]; rfl⟩

omit [Libraries] in
/-- Looking for partitions fails, and the failure is counted. -/
theorem discover_of_search_error {d : Discoverer δ ω} {e : SourceError} (h : s.search d = .error e)
    (now : Nat) (failures : UInt32) : ∃ discoverer w,
      s.toConnectorRun.discover d now failures =
        { s.toConnectorRun with
          connector := { s.connector with discoverer := discoverer }
          world := w }.discoveryFailed now failures e := by
  unfold search at h
  cases hd : s.connector.discoverer with
  | none =>
    rw [hd] at h
    obtain rfl : _ = e := Except.error.inj h
    have hfailed : s.toConnectorRun.discover d now failures = s.toConnectorRun.discoveryFailed now
        failures (s.connector.phase.refusal "discover partitions") := by
      simp only [ConnectorRun.discover, hd]
    exact ⟨s.connector.discoverer, s.world, hfailed⟩
  | some state =>
    simp only [hd] at h
    rcases hfound : d.discover state s.world with ⟨answer, state', w⟩
    rw [hfound] at h
    obtain rfl : answer = .error e := h
    refine ⟨some state', w, ?_⟩
    simp only [ConnectorRun.discover, hd, hfound]

/-- A run that has a failure to report ends with it, and the connector is stopping. -/
theorem Going.finish (h : s.Going config) (parts : Components δ ω) {e : SourceError}
    (hfailure : s.failure = some e) {result : Except SourceError Unit}
    (hresult : s.fetch.result? = some result) :
    s.answer? parts .finish = some (.error e) ∧
      (s.perform parts .finish).connector.phase = .cancelling := by
  have hstop : s.connector.phase.stop = .cancelling := by
    rw [Phase.stop, h.isStopping]
    rfl
  have hfinish : s.toConnectorRun.finish result = (s.toConnectorRun.cancel, .error e) := by
    simp only [ConnectorRun.finish, hfailure]
  simp only [answer?, perform, h.isRunning, hresult, hfinish, true_and]
  exact hstop

theorem exists_result_of_answer {answer : Except SourceError Unit}
    (h : s.answer? parts .finish = some answer) : ∃ result, s.fetch.result? = some result := by
  simp only [answer?] at h
  split at h
  next result _ hresult => exact ⟨result, hresult⟩
  next => cases h

end Session

namespace DiscoveryTrace

open DiscoveryCycle

/-- What the loop does, as the cycles that have ended call for it. -/
inductive Stage (config : SourceConfig) (t : DiscoveryTrace δ ω) : Prop where
  | waiting {failures : UInt32}
      (hdiscovery : t.session.discovery = some ⟨.waiting (due config t.cycles), failures⟩)
      (hfailures : failures.toNat = streak t.cycles) (hnow : t.now ≤ due config t.cycles)
      (hsearching : t.searching = none) (hfew : streak t.cycles < config.maxDiscoveryAttempts.toNat)
      (hfailure : t.session.failure = none)
  | tracking {found : List Partition} {failures : UInt32}
      (hdiscovery : t.session.discovery = some ⟨.adding found, failures⟩)
      (hsearching : t.searching = some (due config t.cycles))
      (hfew : streak t.cycles < config.maxDiscoveryAttempts.toNat)
      (hfailure : t.session.failure = none)
  | exhausted {e : SourceError} (hdiscovery : t.session.discovery = none)
      (hsearching : t.searching = none)
      (hmany : streak t.cycles = config.maxDiscoveryAttempts.toNat)
      (hlast : t.cycles.getLast?.bind (·.failure) = some e)
      (hfailure : t.session.failure =
        some (.discoveryExhausted config.maxDiscoveryAttempts e.message))
      (hcancelled : t.session.FetchCancelled)

/-- What holds of a run with periodic discovery at all times. -/
structure Tallied (config : SourceConfig) (t : DiscoveryTrace δ ω) : Prop where
  going : t.session.Going config
  past : ∀ before x after, t.cycles = before ++ x :: after →
    x.begun = due config before ∧ streak before < config.maxDiscoveryAttempts.toNat
  stage : t.Stage config

variable {parts : Components δ ω} {config : SourceConfig} {t : DiscoveryTrace δ ω}

theorem performAll_append (parts : Components δ ω) (t : DiscoveryTrace δ ω)
    (earlier later : List (ClockAction ω)) :
    t.performAll parts (earlier ++ later) = (t.performAll parts earlier).performAll parts later :=
  List.foldl_append

omit [Libraries] in
theorem past_append {cycles : List DiscoveryCycle} {P : List DiscoveryCycle → DiscoveryCycle → Prop}
    (h : ∀ before x after, cycles = before ++ x :: after → P before x) {y : DiscoveryCycle}
    (hy : P cycles y) :
    ∀ before x after, cycles ++ [y] = before ++ x :: after → P before x := by
  intro before x after hall
  rcases List.eq_nil_or_concat after with rfl | ⟨after, z, rfl⟩
  · obtain ⟨rfl, hxy⟩ := List.append_inj' hall rfl
    obtain rfl := List.singleton_inj.mp hxy
    exact hy
  · rw [List.concat_eq_append, ← List.cons_append, ← List.append_assoc] at hall
    exact h before x after (List.append_inj' hall rfl).1

namespace Tallied

omit [Libraries] in
theorem of_keeps (h : t.Tallied config) {s : Session δ ω}
    (hkeeps : Session.Going.Keeps config t.session s) : Tallied config { t with session := s } where
  going := hkeeps.going
  past := h.past
  stage := by
    cases h.stage with
    | waiting hdiscovery hfailures hnow hsearching hfew hfailure =>
      exact .waiting (hkeeps.discovery.trans hdiscovery) hfailures hnow hsearching hfew
        (hkeeps.failure.trans hfailure)
    | tracking hdiscovery hsearching hfew hfailure =>
      exact .tracking (hkeeps.discovery.trans hdiscovery) hsearching hfew
        (hkeeps.failure.trans hfailure)
    | exhausted hdiscovery hsearching hmany hlast hfailure hcancelled =>
      exact .exhausted (hkeeps.discovery.trans hdiscovery) hsearching hmany hlast
        (hkeeps.failure.trans hfailure) (hkeeps.cancelled hcancelled)

section

variable {failures : UInt32} (h : t.Tallied config) (parts : Components δ ω)
include h

theorem searched (hdiscovery : t.session.discovery = some ⟨.waiting (due config t.cycles), failures⟩)
    (hnow : t.now = due config t.cycles)
    (hfew : streak t.cycles < config.maxDiscoveryAttempts.toNat) (hfailure : t.session.failure = none)
    {ps : List Partition} (hsearch : t.session.search parts.discoverer = .ok ps) :
    Tallied config { t with
      session := t.session.perform parts (.discover t.now), searching := some t.now } := by
  obtain ⟨found, discoverer, w, hfound⟩ := Session.discover_of_search_ok hsearch t.now failures
  rw [h.going.perform_search parts t.now hdiscovery, hfound]
  exact ⟨⟨h.going.config, h.going.isRunning, h.going.phase, h.going.fetcher⟩, h.past,
    .tracking rfl (congrArg some hnow) hfew hfailure⟩

theorem failed (hdiscovery : t.session.discovery = some ⟨.waiting (due config t.cycles), failures⟩)
    (hfailures : failures.toNat = streak t.cycles) (hnow : t.now = due config t.cycles)
    (hsearching : t.searching = none)
    (hfew : streak t.cycles < config.maxDiscoveryAttempts.toNat) (hfailure : t.session.failure = none)
    (hinterval : 0 < config.discoveryIntervalMs)
    {e : SourceError} (hsearch : t.session.search parts.discoverer = .error e) :
    Tallied config { t with
      session := t.session.perform parts (.discover t.now)
      cycles := t.cycles ++ [⟨t.now, t.now, some e⟩] } := by
  obtain ⟨discoverer, w, hfound⟩ := Session.discover_of_search_error hsearch t.now failures
  -- The counter does not overflow, because the limit has the same type.
  have hcount : (failures + 1).toNat = failures.toNat + 1 := by
    have hlt := config.maxDiscoveryAttempts.toNat_lt
    rw [UInt32.toNat_add, UInt32.toNat_one, Nat.mod_eq_of_lt (by omega)]
  have hnext : (failures + 1).toNat = streak (t.cycles ++ [⟨t.now, t.now, some e⟩]) := by
    rw [hcount, hfailures, streak_append]
    rfl
  have hpast := past_append (y := ⟨t.now, t.now, some e⟩) h.past ⟨hnow, hfew⟩
  rw [h.going.perform_search parts t.now hdiscovery, hfound, ConnectorRun.discoveryFailed,
    h.going.config]
  by_cases hlimit : config.maxDiscoveryAttempts ≤ failures + 1
  · have hmany : failures + 1 = config.maxDiscoveryAttempts := by
      have hle := UInt32.le_iff_toNat_le.mp hlimit
      exact UInt32.toNat_inj.mp (by omega)
    rw [if_pos hlimit, hmany]
    obtain ⟨f, hf⟩ := Option.isSome_iff_exists.mp h.going.fetcher
    refine ⟨⟨h.going.config, h.going.isRunning, h.going.phase, ?_⟩, hpast,
      .exhausted rfl hsearching ?_ ?_ rfl ⟨f.cancel, ?_, rfl⟩⟩
    · simp only [Option.isSome_map, h.going.fetcher]
    · rw [← hnext, hmany]
    · rw [List.getLast?_concat]
      rfl
    · simp only [hf, Option.map_some]
  · have hfew' : streak (t.cycles ++ [⟨t.now, t.now, some e⟩]) < config.maxDiscoveryAttempts.toNat := by
      rw [← hnext]
      exact UInt32.lt_iff_toNat_lt.mp (UInt32.not_le.mp hlimit)
    have hwait := congrArg some (nextDiscovery_append hinterval hnext)
    have hahead := ended_le_due config t.cycles ⟨t.now, t.now, some e⟩
    rw [if_neg hlimit]
    exact ⟨⟨h.going.config, h.going.isRunning, h.going.phase, h.going.fetcher⟩, hpast,
      .waiting hwait hnext hahead hsearching hfew' hfailure⟩

theorem tracked {found : List Partition}
    (hdiscovery : t.session.discovery = some ⟨.adding found, failures⟩)
    (hfew : streak t.cycles < config.maxDiscoveryAttempts.toNat) (hfailure : t.session.failure = none)
    (hattempts : config.maxDiscoveryAttempts ≠ 0) (hinterval : 0 < config.discoveryIntervalMs) :
    Tallied config { t with
      session := t.session.perform parts (.discover t.now)
      cycles := t.cycles ++ [⟨due config t.cycles, t.now, none⟩], searching := none } := by
  have hnext : (0 : UInt32).toNat = streak (t.cycles ++ [⟨due config t.cycles, t.now, none⟩]) := by
    rw [streak_append]
    rfl
  have hwait := congrArg some (nextDiscovery_append hinterval hnext)
  have hahead := ended_le_due config t.cycles ⟨due config t.cycles, t.now, none⟩
  rw [h.going.perform_track parts t.now hdiscovery, h.going.config]
  refine ⟨⟨h.going.config, h.going.isRunning, h.going.phase, ?_⟩, past_append h.past ⟨rfl, hfew⟩,
    .waiting hwait hnext hahead rfl ?_ hfailure⟩
  · simp only [ConnectorRun.track, Option.isSome_map, h.going.fetcher]
  · rw [← hnext]
    exact Nat.pos_of_ne_zero fun hzero => hattempts (UInt32.toNat_inj.mp hzero)

end

omit [Libraries] in
theorem passed (h : t.Tallied config) (time : Nat) :
    Tallied config { t with now := max t.now (t.reachable time) } where
  going := h.going
  past := h.past
  stage := by
    cases h.stage with
    | waiting hdiscovery hfailures hnow hsearching hfew hfailure =>
      refine .waiting hdiscovery hfailures (Nat.max_le.mpr ⟨hnow, ?_⟩) hsearching hfew hfailure
      rw [reachable, hdiscovery]
      exact Nat.min_le_right _ _
    | tracking hdiscovery hsearching hfew hfailure =>
      exact .tracking hdiscovery hsearching hfew hfailure
    | exhausted hdiscovery hsearching hmany hlast hfailure hcancelled =>
      exact .exhausted hdiscovery hsearching hmany hlast hfailure hcancelled

variable (hattempts : config.maxDiscoveryAttempts ≠ 0) (hinterval : 0 < config.discoveryIntervalMs)
include hattempts hinterval

theorem stepDiscovery (h : t.Tallied config) (parts : Components δ ω) :
    (t.stepDiscovery parts).Tallied config := by
  rw [DiscoveryTrace.stepDiscovery]
  cases h.stage with
  | waiting hdiscovery hfailures hnow hsearching hfew hfailure =>
    simp only [hdiscovery, h.going.isStopping, Bool.false_eq_true, if_false]
    -- The clock has not passed the time at which the cycle is due, so that it begins exactly then.
    by_cases hearly : t.now < due config t.cycles
    · rw [if_pos hearly]
      exact h
    rw [if_neg hearly]
    have hdue : t.now = due config t.cycles := Nat.le_antisymm hnow (Nat.le_of_not_lt hearly)
    cases hsearch : t.session.search parts.discoverer with
    | ok ps => exact h.searched parts hdiscovery hdue hfew hfailure hsearch
    | error e =>
      exact h.failed parts hdiscovery hfailures hdue hsearching hfew hfailure hinterval hsearch
  | tracking hdiscovery hsearching hfew hfailure =>
    simp only [hdiscovery, hsearching, Option.map_some, Option.toList_some]
    exact h.tracked parts hdiscovery hfew hfailure hattempts hinterval
  | exhausted hdiscovery =>
    simp only [hdiscovery]
    exact h

theorem perform (h : t.Tallied config) (parts : Components δ ω) {a : ClockAction ω}
    (ha : a.leavesRun = true) : (t.perform parts a).Tallied config := by
  cases a with
  | fetch => exact h.of_keeps (h.going.fetched parts t.now).1
  | discover => exact h.stepDiscovery hattempts hinterval parts
  | call a => exact h.of_keeps (h.going.called ha (Session.perform_step parts.movesAnywhere _ a)).1
  | pass time => exact h.passed time
  | world w => exact h.of_keeps (h.going.of_same rfl rfl h.going.phase rfl rfl rfl)

theorem performAll (h : t.Tallied config) (parts : Components δ ω) {actions : List (ClockAction ω)}
    (hleaves : ∀ a ∈ actions, a.leavesRun = true) : (t.performAll parts actions).Tallied config := by
  induction actions generalizing t with
  | nil => exact h
  | cons a actions ih =>
    obtain ⟨ha, hactions⟩ := List.forall_mem_cons.mp hleaves
    exact ih (h.perform hattempts hinterval parts ha) hactions

end Tallied

/-- The run ends only with the error, which stops the connector; and it does end, as long as its fetch
loop is not kept from going on. -/
structure Returns (parts : Components δ ω) (e : SourceError) (t : DiscoveryTrace δ ω) : Prop where
  only : ∀ actions : List (ClockAction ω), (∀ a ∈ actions, a.leavesRun = true) → ∀ answer,
    (t.performAll parts actions).session.answer? parts .finish = some answer → answer = .error e ∧
      ((t.performAll parts actions).session.perform parts .finish).connector.phase = .cancelling
  comes : ∀ actions : ℕ → ClockAction ω, (∀ n, (actions n).leavesRun = true) →
    (∀ n, ∃ k ≥ n, actions k = .fetch) → ∃ n answer,
      (t.performAll parts ((List.range n).map actions)).session.answer? parts .finish = some answer

namespace Tallied

/-- When discovery has ended, nothing adds a cycle, and only its own steps change the fetch loop. -/
theorem ended_perform (h : t.Tallied config) (hended : t.session.discovery = none)
    (parts : Components δ ω) {a : ClockAction ω} (ha : a.leavesRun = true) :
    (t.perform parts a).session.discovery = none ∧ (t.perform parts a).cycles = t.cycles ∧
      (a ≠ .fetch → (t.perform parts a).session.fetch = t.session.fetch) := by
  cases a with
  | fetch =>
    exact ⟨(h.going.fetched parts t.now).1.discovery.trans hended, rfl, fun hne => absurd rfl hne⟩
  | discover =>
    have hsame : t.perform parts .discover = t := by
      simp only [DiscoveryTrace.perform, DiscoveryTrace.stepDiscovery, hended]
    rw [hsame]
    exact ⟨hended, rfl, fun _ => rfl⟩
  | call a =>
    obtain ⟨hkeeps, hfetch⟩ := h.going.called ha (Session.perform_step parts.movesAnywhere _ a)
    exact ⟨hkeeps.discovery.trans hended, rfl, fun _ => hfetch⟩
  | pass | world => exact ⟨hended, rfl, fun _ => rfl⟩

omit [Libraries] in
theorem exhausted (h : t.Tallied config) (hended : t.session.discovery = none) :
    ∃ e, t.cycles.getLast?.bind (·.failure) = some e ∧
      t.session.failure = some (.discoveryExhausted config.maxDiscoveryAttempts e.message) ∧
      t.session.FetchCancelled ∧ streak t.cycles = config.maxDiscoveryAttempts.toNat := by
  cases h.stage with
  | waiting hdiscovery | tracking hdiscovery => cases hended.symm.trans hdiscovery
  | exhausted _ _ hmany hlast hfailure hcancelled =>
    exact ⟨_, hlast, hfailure, hcancelled, hmany⟩

omit [Libraries] in
theorem leavesRun_first {actions : ℕ → ClockAction ω} (hleaves : ∀ n, (actions n).leavesRun = true)
    (n : ℕ) : ∀ a ∈ (List.range n).map actions, a.leavesRun = true := by
  intro a ha
  obtain ⟨k, -, rfl⟩ := List.mem_map.mp ha
  exact hleaves k

variable (hattempts : config.maxDiscoveryAttempts ≠ 0) (hinterval : 0 < config.discoveryIntervalMs)
include hattempts hinterval

theorem ended_performAll (h : t.Tallied config) (hended : t.session.discovery = none)
    (parts : Components δ ω) {actions : List (ClockAction ω)}
    (hleaves : ∀ a ∈ actions, a.leavesRun = true) :
    (t.performAll parts actions).session.discovery = none ∧
      (t.performAll parts actions).cycles = t.cycles := by
  induction actions generalizing t with
  | nil => exact ⟨hended, rfl⟩
  | cons a actions ih =>
    obtain ⟨ha, hactions⟩ := List.forall_mem_cons.mp hleaves
    obtain ⟨hnone, hcycles, -⟩ := h.ended_perform hended parts ha
    obtain ⟨hnone', hcycles'⟩ := ih (h.perform hattempts hinterval parts ha) hnone hactions
    exact ⟨hnone', hcycles'.trans hcycles⟩

/-- A fetch loop that is cancelled and gets its turn again and again comes to its end. -/
theorem exists_result (h : t.Tallied config) (hended : t.session.discovery = none)
    (parts : Components δ ω) {actions : ℕ → ClockAction ω}
    (hleaves : ∀ n, (actions n).leavesRun = true) (hturns : ∀ n, ∃ k ≥ n, actions k = .fetch) :
    ∃ n, (t.performAll parts ((List.range n).map actions)).session.fetch.result?.isSome = true := by
  by_contra hnever
  let u (n : ℕ) : DiscoveryTrace δ ω := t.performAll parts ((List.range n).map actions)
  have hlive (n : ℕ) : (u n).session.fetch.result? = none := by
    rw [not_exists] at hnever
    simpa using hnever n
  have hfirst (n : ℕ) := leavesRun_first hleaves n
  have htallied (n : ℕ) : (u n).Tallied config := h.performAll hattempts hinterval parts (hfirst n)
  have hnone (n : ℕ) : (u n).session.discovery = none :=
    (h.ended_performAll hattempts hinterval hended parts (hfirst n)).1
  have hnext (n : ℕ) : u (n + 1) = (u n).perform parts (actions n) := by
    simp only [u, List.range_succ, List.map_append, performAll_append]
    rfl
  let rank (n : ℕ) : ℕ ×ₗ ℕ := (u n).session.fetch.stage.rank
  have hless (n : ℕ) (hn : actions n = .fetch) : rank (n + 1) < rank n := by
    obtain ⟨-, -, -, hcancelled, -⟩ := (htallied n).exhausted (hnone n)
    simp only [rank, hnext, hn]
    exact ((htallied n).going.fetched parts _).2 hcancelled (hlive n)
  have hmono : Antitone rank := antitone_nat_of_succ_le fun n => by
    by_cases hn : actions n = .fetch
    · exact (hless n hn).le
    · simp only [rank, hnext, ((htallied n).ended_perform (hnone n) parts (hleaves n)).2.2 hn]
      exact le_refl _
  -- Ranks do not decrease for ever, but they do at each turn of the fetch loop.
  obtain ⟨-, ⟨n, rfl⟩, hleast⟩ := wellFounded_lt.has_min (Set.range rank) (Set.range_nonempty rank)
  obtain ⟨k, hk, hturn⟩ := hturns n
  exact hleast (rank (k + 1)) ⟨k + 1, rfl⟩ ((hless k hturn).trans_le (hmono hk))

theorem returns (h : t.Tallied config) (hended : t.session.discovery = none) {e : SourceError}
    (he : t.cycles.getLast?.bind (·.failure) = some e) (parts : Components δ ω) :
    t.Returns parts (.discoveryExhausted config.maxDiscoveryAttempts e.message) where
  only actions hleaves answer hanswer := by
    have hafter := h.performAll hattempts hinterval parts hleaves
    obtain ⟨hnone, hcycles⟩ := h.ended_performAll hattempts hinterval hended parts hleaves
    -- The failure that is reported is still the one of the last cycle, because there was no other one.
    obtain ⟨e', he', hfailure, -⟩ := hafter.exhausted hnone
    rw [hcycles] at he'
    obtain rfl := Option.some.inj (he.symm.trans he')
    obtain ⟨result, hresult⟩ := Session.exists_result_of_answer hanswer
    obtain ⟨hreported, hphase⟩ := hafter.going.finish parts hfailure hresult
    exact ⟨Option.some.inj (hanswer.symm.trans hreported), hphase⟩
  comes actions hleaves hturns := by
    obtain ⟨n, hresult⟩ := h.exists_result hattempts hinterval hended parts hleaves hturns
    have hfirst := leavesRun_first hleaves n
    have hafter := h.performAll hattempts hinterval parts hfirst
    obtain ⟨_, -, hfailure, -⟩ :=
      hafter.exhausted (h.ended_performAll hattempts hinterval hended parts hfirst).1
    obtain ⟨result, hresult⟩ := Option.isSome_iff_exists.mp hresult
    exact ⟨n, _, (hafter.going.finish parts hfailure hresult).1⟩

end Tallied

/-- A connector that was opened begins to run without having looked for partitions. -/
theorem tallied_begin {s : Session δ ω} (o : s.Orderly) (hopened : s.connector.phase = .opened)
    (hinterval : 0 < s.connector.config.discoveryIntervalMs)
    (hattempts : s.connector.config.maxDiscoveryAttempts ≠ 0) (parts : Components δ ω) :
    (begin parts s).Tallied s.connector.config := by
  have hrun : s.perform parts .run = { s with
      fetch := {}, failure := none, isRunning := true
      discovery := some ⟨.waiting (due s.connector.config []), 0⟩
      connector := { s.connector with phase := .running } } := by
    have hwait : s.connector.config.discoveryInterval? =
        some s.connector.config.discoveryIntervalMs.toInt.toNat := by
      rw [SourceConfig.discoveryInterval?, if_pos hinterval]
    have hdue : due s.connector.config [] = s.connector.config.discoveryIntervalMs.toInt.toNat :=
      Nat.zero_add _
    simp only [Session.perform, ConnectorRun.begin, hopened, if_true, hwait, Option.map_some, hdue]
  rw [begin, hrun]
  refine ⟨⟨rfl, rfl, Or.inl rfl, o.ready (Or.inl hopened)⟩, fun before x after h => ?_,
    .waiting rfl rfl (Nat.zero_le _) rfl (Nat.pos_of_ne_zero fun hzero => ?_) rfl⟩
  · exact absurd h (List.append_ne_nil_of_right_ne_nil before (List.cons_ne_nil x after)).symm
  · exact hattempts (UInt32.toNat_inj.mp hzero)

/-- What periodic discovery has done so far, and what it does next. -/
structure Regular (parts : Components δ ω) (config : SourceConfig) (t : DiscoveryTrace δ ω) : Prop where
  /-- Each cycle began when it was due, and before it not too many had failed. -/
  past : ∀ before x after, t.cycles = before ++ x :: after →
    x.begun = due config before ∧ streak before < config.maxDiscoveryAttempts.toNat
  /-- Discovery waits until the next one is due, and then it looks for partitions. -/
  waits : ∀ wake failures, t.session.discovery = some ⟨.waiting wake, failures⟩ →
    wake = due config t.cycles ∧ t.now ≤ wake ∧
      match t.session.search parts.discoverer with
      | .ok _ => (t.performAll parts [.pass wake, .discover]).searching = some wake
      | .error e => (t.performAll parts [.pass wake, .discover]).cycles =
          t.cycles ++ [⟨wake, wake, some e⟩]
  tracks : ∀ begun, t.searching = some begun → begun = due config t.cycles ∧
    (t.perform parts .discover).cycles = t.cycles ++ [⟨begun, t.now, none⟩]
  goesOn : streak t.cycles < config.maxDiscoveryAttempts.toNat →
    t.session.discovery.isSome = true ∧ t.session.failure = none
  ends : config.maxDiscoveryAttempts.toNat ≤ streak t.cycles →
    streak t.cycles = config.maxDiscoveryAttempts.toNat ∧ t.session.discovery = none ∧
      ∃ e, t.cycles.getLast?.bind (·.failure) = some e ∧
        t.Returns parts (.discoveryExhausted config.maxDiscoveryAttempts e.message)

theorem Tallied.regular (hattempts : config.maxDiscoveryAttempts ≠ 0)
    (hinterval : 0 < config.discoveryIntervalMs) (h : t.Tallied config) (parts : Components δ ω) :
    t.Regular parts config where
  past := h.past
  waits wake failures hwait := by
    cases h.stage with
    | waiting hdiscovery _ hnow =>
      obtain ⟨hstage, -⟩ := DiscoveryLoop.mk.inj (Option.some.inj (hwait.symm.trans hdiscovery))
      obtain rfl := DiscoveryStage.waiting.inj hstage
      refine ⟨rfl, hnow, ?_⟩
      have hclock : max t.now (t.reachable (due config t.cycles)) = due config t.cycles := by
        simp only [reachable, hdiscovery, min_self, max_eq_right hnow]
      have hpass : t.perform parts (.pass (due config t.cycles)) =
          { t with now := due config t.cycles } := by
        rw [DiscoveryTrace.perform, hclock]
      have hnext : t.performAll parts [.pass (due config t.cycles), .discover] =
          { t with now := due config t.cycles }.stepDiscovery parts :=
        congrArg (DiscoveryTrace.stepDiscovery parts) hpass
      rw [hnext, DiscoveryTrace.stepDiscovery]
      simp only [hdiscovery, h.going.isStopping, Bool.false_eq_true, if_false, Nat.lt_irrefl]
      cases t.session.search parts.discoverer <;> rfl
    | tracking hdiscovery | exhausted hdiscovery => cases hwait.symm.trans hdiscovery
  tracks begun hbegun := by
    cases h.stage with
    | waiting _ _ _ hsearching | exhausted _ hsearching => cases hbegun.symm.trans hsearching
    | tracking hdiscovery hsearching =>
      obtain rfl := Option.some.inj (hbegun.symm.trans hsearching)
      refine ⟨rfl, ?_⟩
      simp only [DiscoveryTrace.perform, DiscoveryTrace.stepDiscovery, hdiscovery, hsearching,
        Option.map_some, Option.toList_some]
  goesOn hfew := by
    cases h.stage with
    | waiting hdiscovery _ _ _ _ hfailure | tracking hdiscovery _ _ hfailure =>
      exact ⟨by rw [hdiscovery]; rfl, hfailure⟩
    | exhausted _ _ hmany => exact absurd hmany hfew.ne
  ends hmany := by
    cases h.stage with
    | waiting _ _ _ _ hfew | tracking _ _ hfew => exact absurd hmany (Nat.not_le.mpr hfew)
    | exhausted hdiscovery _ hmany hlast =>
      exact ⟨hmany, hdiscovery, _, hlast, h.returns hattempts hinterval hdiscovery hlast parts⟩

/-- Whatever is found, fails and happens besides while a connector runs and is not stopped: periodic
discovery looks for partitions after the interval at first and after each success, and after the wait that
the backoff gives for the number of failures in a row otherwise. It goes on until as many cycles have
failed in a row as are allowed. Then it ends, and the run ends with the last failure and leaves the
connector stopping, as soon as its fetch loop has ended. -/
theorem discovery_ends_after_failures {config : SourceConfig} {index count : UInt64} {c : Connector δ}
    (hc : Connector.create config index count = .ok c) (hinterval : 0 < config.discoveryIntervalMs)
    (parts : Components δ ω) (w : ω) (earlier : List SessionAction)
    (hopened : ((Session.start c w).performAll parts earlier).connector.phase = .opened)
    (actions : List (ClockAction ω)) (hleaves : ∀ a ∈ actions, a.leavesRun = true) :
    ((begin parts ((Session.start c w).performAll parts earlier)).performAll parts actions).Regular
      parts config := by
  obtain ⟨hvalid, _, -, hcreated⟩ := Connector.create_ok hc
  have hattempts := SourceConfig.maxDiscoveryAttempts_ne_zero hvalid
  have hconfig : ((Session.start c w).performAll parts earlier).connector.config = config := by
    rw [Session.performAll_config, hcreated]
    rfl
  have hbegun := tallied_begin ((Session.Orderly.start hc w).performAll parts earlier) hopened
    (hconfig ▸ hinterval) (hconfig ▸ hattempts) parts
  rw [hconfig] at hbegun
  exact (hbegun.performAll hattempts hinterval parts hleaves).regular hattempts hinterval parts

end DiscoveryTrace

end CheckpointedLog

namespace CheckpointedLog.DiscoveryTrace

open scoped Pattern

/-- One success and then two failures, of which two in a row are too many: the second one follows after the
backoff of 3 milliseconds and not after the interval of 10. -/
theorem discovery_ends_after_failures_since_success :
    let parts : Components BrokerDiscoverer MemoryBroker :=
      ⟨MemoryBroker.client, BrokerDiscoverer.discoverer MemoryBroker.client⟩
    let config : SourceConfig :=
      { topics := .list ["a"], discoveryIntervalMs := 10, maxDiscoveryAttempts := 2
        backoff := { initialMs := 3 } }
    let c : Connector BrokerDiscoverer := { config := config, subtask := .single }
    let b := (MemoryBroker.ofMaxBatch 1).createTopic "a" 1
    let actions : List (ClockAction MemoryBroker) :=
      [.fetch, .pass 15, .discover, .discover, .world ((b.failMetadata (.timeout 5)).failMetadata
        (.timeout 7)), .pass 15, .discover, .pass 25, .discover, .pass 25, .discover]
    let s := (Session.start c b).performAll parts [.open]
    let t := (begin parts s).performAll parts actions
    Connector.create config 0 1 = .ok c ∧ s.connector.phase = .opened ∧
      t.cycles = [⟨10, 10, none⟩,
        ⟨20, 20, some (.discovery "failed to list partitions: Broker request timed out after 5ms")⟩,
        ⟨23, 23, some (.discovery "failed to list partitions: Broker request timed out after 7ms")⟩] ∧
      t.Returns parts (.discoveryExhausted 2
        "Partition discovery failed: failed to list partitions: Broker request timed out after 7ms") := by
  intro parts config c b actions s t
  have hc : Connector.create config 0 1 = .ok c := by rfl
  have hopened : s.connector.phase = .opened := by decide +kernel
  have hcycles : t.cycles = [⟨10, 10, none⟩,
      ⟨20, 20, some (.discovery "failed to list partitions: Broker request timed out after 5ms")⟩,
      ⟨23, 23, some (.discovery "failed to list partitions: Broker request timed out after 7ms")⟩] := by
    decide +kernel
  have hregular : t.Regular parts config :=
    discovery_ends_after_failures hc (by decide) parts b [.open] hopened actions (by decide)
  obtain ⟨-, -, e, hlast, hreturns⟩ := hregular.ends (by decide +kernel)
  rw [hcycles] at hlast
  obtain rfl := Option.some.inj hlast
  exact ⟨hc, hopened, hcycles, hreturns⟩

end CheckpointedLog.DiscoveryTrace
