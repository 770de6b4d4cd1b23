import CheckpointedLog.Broker.Shared
import CheckpointedLog.Connector.Lifecycle
import CheckpointedLog.Pattern.Reader
import CheckpointedLog.Proofs.Connector.Step
import CheckpointedLog.Proofs.Fetch.Failure

/-!
The phases of a connector over its whole life, whoever calls its operations in whatever order. A fetch
loop ends without a failure only when it was cancelled, and it is cancelled only by a request to stop or
by a discovery that failed for good. So a run never returns to a connector that is still live.
-/
namespace CheckpointedLog

variable {δ ω : Type}

namespace Phase

theorem rank_le_stop (p : Phase) : p.rank ≤ p.stop.rank := by
  cases p <;> decide

theorem rank_le_closed (p : Phase) : p.rank ≤ closed.rank := by
  cases p <;> decide

theorem rank_shift {p source target : Phase} (h : source.rank = target.rank) :
    (p.shift source target).rank = p.rank := by
  unfold shift
  split
  next hp => rw [hp, h]
  next => rfl

theorem shift_ne {p source target : Phase} (h : target ≠ source) :
    p.shift source target ≠ source := by
  intro heq
  obtain rfl := of_shift_eq heq h
  rw [shift, if_pos rfl] at heq
  exact h heq

theorem eq_of_isStopping {p : Phase} (h : p.isStopping = true) : p = cancelling ∨ p = closed := by
  cases p with
  | cancelling => exact Or.inl rfl
  | closed => exact Or.inr rfl
  | created | opened | running | snapshotting => cases h

end Phase

namespace FetchLoop

variable {client : BrokerClient ω} {now : Nat} {l l' : FetchLoop} {f f' : Fetcher} {w w' : ω}
  {r : Option Record}

theorem failRound_not_ok (f : Fetcher) (now : Nat) (e : SourceError) (l : FetchLoop) :
    (l.failRound f now e).result? ≠ some (.ok ()) := by
  rw [result?_failRound, SourceError.verdict?]
  split <;> simp

theorem settle_not_ok (f : Fetcher) (now : Nat) (failure : Option SourceError) (l : FetchLoop)
    (outcomes : List Polled) : (l.settle f now failure outcomes).result? ≠ some (.ok ()) := by
  induction outcomes generalizing failure with
  | nil =>
    cases failure with
    | none => exact nofun
    | some e => exact failRound_not_ok f now e l
  | cons o rest ih =>
    unfold settle
    split
    next => exact nofun
    next =>
      simp only
      split
      · exact nofun
      · exact ih _

/-- The loop ends without a failure only where it begins a round and finds itself cancelled. -/
theorem Step.isCancelled_of_ok (hstep : l.Step client now f w l' f' w' r)
    (h : l'.result? = some (.ok ())) : f.isCancelled = true ∨ l.result? = some (.ok ()) := by
  cases hstep with
  | begun =>
    left
    unfold beginRound at h
    split at h
    next hcancelled => exact hcancelled
    next => split at h <;> cases h
  | untracked | overflowed | unresolved => exact absurd h (failRound_not_ok f now _ l)
  | settled => exact absurd h (settle_not_ok f now none l _)
  | delivered =>
    unfold settleRest at h
    split at h
    · cases h
    · exact absurd h (settle_not_ok f now _ l _)
  -- These steps leave the loop in a round or before one.
  | known | positioned | resolved | polled | recorded | skipped | dropped | emitted => cases h
  | ended => exact Or.inr h

end FetchLoop

/-- A request to stop leaves the fetcher there, cancelled. -/
theorem Fetcher.exists_cancel {fetcher : Option Fetcher} (f : Fetcher) (hf : fetcher = some f) :
    ∃ f', fetcher.map cancel = some f' ∧ (f.isCancelled = true → f'.isCancelled = true) :=
  ⟨f.cancel, congrArg (Option.map cancel) hf, fun _ => rfl⟩

namespace Connector

theorem require_refused {c : Connector δ} {operation : String} {allowed : List Phase}
    (h : c.phase ∉ allowed) : c.require operation allowed = .error (c.phase.refusal operation) := by
  rw [require, if_neg fun hallowed => h (List.contains_iff_mem.mp hallowed)]

theorem restoreFrom_refused {c : Connector δ} (h : c.phase ≠ .created)
    (decoded : Except Snapshot.Fault OffsetState) :
    c.restoreFrom decoded = (.error (c.phase.refusal "restore state"), c) := by
  simp only [restoreFrom, require_refused fun hmem => h (List.mem_singleton.mp hmem)]

theorem restoreFrom_fault (c : Connector δ) (fault : Snapshot.Fault) :
    ∃ e, c.restoreFrom (.error fault) = (.error e, c) := by
  unfold restoreFrom
  cases c.require "restore state" [.created] with
  | error e => exact ⟨e, rfl⟩
  | ok _ => exact ⟨fault.toError, rfl⟩

theorem open_refused [Libraries] {c : Connector δ} (h : c.phase ≠ .created) (parts : Components δ ω) (w : ω) :
    c.open parts w = { result := .error (c.phase.refusal "open"), connector := c, world := w } := by
  simp only [«open», require_refused fun hmem => h (List.mem_singleton.mp hmem)]

theorem beginSnapshot_refused {c : Connector δ} (h : c.phase ∉ [.opened, .running, .snapshotting]) :
    c.beginSnapshot = (.error (c.phase.refusal "snapshot state"), c) := by
  simp only [beginSnapshot, require_refused h]

end Connector

variable [Libraries]

namespace Session

variable {parts : Components δ ω} {G : ω → ω → Prop} {s s' : Session δ ω} {a : SessionAction}

theorem Step.rank_le (h : s.Step parts G a s') :
    s.connector.phase.rank ≤ s'.connector.phase.rank := by
  cases h with
  | idle | restored | openFailed | fetched | tracked | discoveryEnded | searched | finished
  | snapshotEnded | completionBegun | completed => exact Nat.le_refl _
  | opened hphase | begun hphase => exact hphase ▸ Nat.le_succ _
  | failed | cancelled => exact Phase.rank_le_stop s.connector.phase
  -- Fetching has the same place with a snapshot and without one.
  | snapshotBegun =>
    have hrank : Phase.running.rank = Phase.snapshotting.rank := rfl
    exact Nat.le_of_eq (Phase.rank_shift hrank).symm
  | copied =>
    have hrank : Phase.snapshotting.rank = Phase.running.rank := rfl
    exact Nat.le_of_eq (Phase.rank_shift hrank).symm
  | closed => exact Phase.rank_le_closed s.connector.phase

/-- How the phase and the calls that are under way are related at all times. Fetching is cancelled only
after a request to stop, or in a run that has a failure to report. -/
structure Orderly (s : Session δ ω) : Prop where
  early : s.connector.phase = .created ∨ s.connector.phase = .opened →
    s.isRunning = false ∧ s.failure = none
  unset : s.connector.phase = .created → s.connector.fetcher = none
  ready : s.connector.phase = .opened ∨ s.isRunning = true → s.connector.fetcher.isSome = true
  live : s.connector.phase = .running ∨ s.connector.phase = .snapshotting → s.isRunning = true
  cancelled : ∀ f, s.connector.fetcher = some f → f.isCancelled = true →
    s.connector.phase.isStopping = true ∨ s.failure.isSome = true
  ended : s.isRunning = true → s.fetch.result? = some (.ok ()) →
    ∃ f, s.connector.fetcher = some f ∧ f.isCancelled = true
  snapshotting : s.connector.phase = .snapshotting → ∃ id, (id, none) ∈ s.snapshots

namespace Orderly

theorem start {config : SourceConfig} {index count : UInt64} {c : Connector δ}
    (hc : Connector.create config index count = .ok c) (w : ω) : (start c w).Orderly := by
  obtain ⟨-, t, -, rfl⟩ := Connector.create_ok hc
  constructor
  case early => exact fun _ => ⟨rfl, rfl⟩
  case unset => exact fun _ => rfl
  case ready => exact fun h => h.elim Phase.noConfusion Bool.noConfusion
  case live => exact fun h => h.elim Phase.noConfusion Phase.noConfusion
  case cancelled => exact nofun
  case ended => exact nofun
  case snapshotting => exact Phase.noConfusion

omit [Libraries] in
/-- Whatever else happens to a connector that is asked to stop, if its fetcher stays. -/
theorem stopped (o : s.Orderly) (hphase : s'.connector.phase.isStopping = true)
    (hfetcher : ∀ f, s.connector.fetcher = some f → ∃ f', s'.connector.fetcher = some f' ∧
      (f.isCancelled = true → f'.isCancelled = true))
    (hrun : s'.isRunning = true → s.isRunning = true) (hfetch : s'.fetch = s.fetch) : s'.Orderly := by
  have hne {p : Phase} (hp : p.isStopping = false) : s'.connector.phase ≠ p :=
    Phase.ne_of_isStopping hphase hp
  constructor
  case early => exact fun h => h.elim (fun h => absurd h (hne rfl)) fun h => absurd h (hne rfl)
  case unset => exact fun h => absurd h (hne rfl)
  case ready =>
    rintro (h | h)
    · exact absurd h (hne rfl)
    · obtain ⟨f, hf⟩ := Option.isSome_iff_exists.mp (o.ready (Or.inr (hrun h)))
      obtain ⟨f', hf', -⟩ := hfetcher f hf
      rw [hf']
      rfl
  case live => exact fun h => h.elim (fun h => absurd h (hne rfl)) fun h => absurd h (hne rfl)
  case cancelled => exact fun _ _ _ => Or.inl hphase
  case ended =>
    intro h hresult
    obtain ⟨f, hf, hcancelled⟩ := o.ended (hrun h) (hfetch ▸ hresult)
    obtain ⟨f', hf', hkept⟩ := hfetcher f hf
    exact ⟨f', hf', hkept hcancelled⟩
  case snapshotting => exact fun h => absurd h (hne rfl)

omit [Libraries] in
theorem shifted (o : s.Orderly) {source target : Phase}
    (hphase : s'.connector.phase = s.connector.phase.shift source target)
    (hsource : source = .running ∨ source = .snapshotting)
    (htarget : target ≠ .created ∧ target ≠ .opened)
    (hfetcher : s'.connector.fetcher = s.connector.fetcher) (hrun : s'.isRunning = s.isRunning)
    (hfetch : s'.fetch = s.fetch) (hfailure : s'.failure = s.failure)
    (hsnapshots : s'.connector.phase = .snapshotting → ∃ id, (id, none) ∈ s'.snapshots) :
    s'.Orderly := by
  have hcreated (h : s'.connector.phase = .created) : s.connector.phase = .created :=
    Phase.of_shift_eq (hphase.symm.trans h) htarget.1
  have hopened (h : s'.connector.phase = .opened) : s.connector.phase = .opened :=
    Phase.of_shift_eq (hphase.symm.trans h) htarget.2
  have hlive : source.isStopping = false := by
    rcases hsource with rfl | rfl <;> rfl
  constructor
  case early =>
    rw [hrun, hfailure]
    exact fun h => o.early (h.imp hcreated hopened)
  case unset =>
    rw [hfetcher]
    exact fun h => o.unset (hcreated h)
  case ready =>
    rw [hfetcher, hrun]
    exact fun h => o.ready (h.imp_left hopened)
  case live =>
    rw [hrun]
    intro h
    by_cases hfrom : s.connector.phase = source
    · exact o.live (hfrom ▸ hsource)
    · rw [hphase, Phase.shift, if_neg hfrom] at h
      exact o.live h
  case cancelled =>
    rw [hfetcher, hfailure, hphase]
    exact fun f hf hc => (o.cancelled f hf hc).imp_left fun h => Phase.isStopping_shift h hlive
  case ended =>
    rw [hfetcher, hrun, hfetch]
    exact o.ended
  case snapshotting => exact hsnapshots

omit [Libraries] in
/-- A step of a run. The fetch loop ends without a failure only if it was cancelled, and when fetching is
cancelled by the run, then with a failure. -/
theorem stepped (o : s.Orderly) (hrun : s.isRunning = true) {f f' : Fetcher}
    (hf : s.connector.fetcher = some f) (hf' : s'.connector.fetcher = some f')
    (hrun' : s'.isRunning = true) (hphase : s'.connector.phase = s.connector.phase)
    (hsnapshots : s'.snapshots = s.snapshots)
    (hcancel : f'.isCancelled = f.isCancelled ∧ s'.failure = s.failure ∨
      f'.isCancelled = true ∧ s'.failure.isSome = true)
    (hend : s'.fetch.result? = some (.ok ()) →
      f.isCancelled = true ∨ s.fetch.result? = some (.ok ())) : s'.Orderly := by
  have hlate : ¬ (s'.connector.phase = .created ∨ s'.connector.phase = .opened) := by
    rw [hphase]
    exact fun h => absurd ((o.early h).1.symm.trans hrun) Bool.false_ne_true
  constructor
  case early => exact fun h => absurd h hlate
  case unset => exact fun h => absurd (Or.inl h) hlate
  case ready =>
    rw [hf']
    exact fun _ => rfl
  case live => exact fun _ => hrun'
  case cancelled =>
    intro f₁ hf₁ hcancelled
    obtain rfl := Option.some.inj (hf'.symm.trans hf₁)
    rcases hcancel with ⟨hsame, hfailure⟩ | ⟨-, hfailure⟩
    · rw [hphase, hfailure]
      exact o.cancelled f hf (hsame.symm.trans hcancelled)
    · exact Or.inr hfailure
  case ended =>
    intro _ hresult
    refine ⟨f', hf', ?_⟩
    have hcancelled : f.isCancelled = true := by
      refine (hend hresult).elim id fun h => ?_
      obtain ⟨f₁, hf₁, hcancelled⟩ := o.ended hrun h
      obtain rfl := Option.some.inj (hf.symm.trans hf₁)
      exact hcancelled
    exact hcancel.elim (fun h => h.1.trans hcancelled) And.left
  case snapshotting =>
    rw [hphase, hsnapshots]
    exact o.snapshotting

omit [Libraries] in
/-- A fetch loop that ended without a failure, in a run that has none, was asked to stop. -/
theorem stopping_of_ended (o : s.Orderly) (hrun : s.isRunning = true)
    (hresult : s.fetch.result? = some (.ok ())) (hfailure : s.failure = none) :
    s.connector.phase.isStopping = true := by
  obtain ⟨f, hf, hcancelled⟩ := o.ended hrun hresult
  -- The loop was cancelled, but not by the run, which would have a failure to report.
  refine (o.cancelled f hf hcancelled).resolve_right ?_
  rw [hfailure]
  exact Bool.false_ne_true

theorem of_step (o : s.Orderly) (h : s.Step parts G a s') : s'.Orderly := by
  cases h with
  | idle => exact o
  | restored | openFailed | discoveryEnded | completionBegun | completed => exact { o with }
  | opened hphase =>
    -- The fetcher is a new one, which nobody has cancelled.
    obtain ⟨hstopped, hfailure⟩ := o.early (Or.inl hphase)
    constructor
    case early => exact fun _ => ⟨hstopped, hfailure⟩
    case unset => exact Phase.noConfusion
    case ready => exact fun _ => rfl
    case live => exact fun h => h.elim Phase.noConfusion Phase.noConfusion
    case cancelled =>
      intro f hf hcancelled
      obtain rfl := Option.some.inj hf
      cases hcancelled
    case ended => exact fun hrun => absurd (hstopped.symm.trans hrun) Bool.false_ne_true
    case snapshotting => exact Phase.noConfusion
  | begun hphase =>
    obtain ⟨-, hfailure⟩ := o.early (Or.inr hphase)
    constructor
    case early => exact fun h => h.elim Phase.noConfusion Phase.noConfusion
    case unset => exact Phase.noConfusion
    case ready => exact fun _ => o.ready (Or.inl hphase)
    case live => exact fun _ => rfl
    case cancelled =>
      -- Before a run nothing has a failure to report, so that nothing was cancelled.
      intro f hf hcancelled
      rcases o.cancelled f hf hcancelled with h | h
      · rw [hphase] at h
        cases h
      · rw [hfailure] at h
        cases h
    case ended => exact nofun
    case snapshotting => exact Phase.noConfusion
  -- Four actions are steps of a run: one of the fetch loop, and three of discovery.
  | @fetched now f hrun hf =>
    have hstep := FetchLoop.step_cases parts.client now s.fetch f s.world
    exact o.stepped hrun hf rfl hrun rfl rfl (Or.inl ⟨hstep.isCancelled, rfl⟩)
      hstep.isCancelled_of_ok
  | tracked hrun =>
    obtain ⟨f, hf⟩ := Option.isSome_iff_exists.mp (o.ready (Or.inr hrun))
    exact o.stepped hrun hf (congrArg (Option.map _) hf) hrun rfl rfl (Or.inl ⟨rfl, rfl⟩) Or.inr
  | searched hrun _ _ hfetcher =>
    obtain ⟨f, hf⟩ := Option.isSome_iff_exists.mp (o.ready (Or.inr hrun))
    rcases hfetcher with ⟨rfl, rfl⟩ | ⟨rfl, hfailure⟩
    · exact o.stepped hrun hf hf hrun rfl rfl (Or.inl ⟨rfl, rfl⟩) Or.inr
    · exact o.stepped hrun hf (congrArg (Option.map _) hf) hrun rfl rfl (Or.inr ⟨rfl, hfailure⟩)
        Or.inr
  | finished hrun hresult hfailure =>
    have hstop := o.stopping_of_ended hrun hresult hfailure
    refine o.stopped hstop (fun f hf => ⟨f, hf, id⟩) nofun rfl
  | failed => exact o.stopped (Phase.isStopping_stop _) Fetcher.exists_cancel nofun rfl
  | cancelled => exact o.stopped (Phase.isStopping_stop _) Fetcher.exists_cancel id rfl
  | closed => exact o.stopped rfl Fetcher.exists_cancel id rfl
  | snapshotBegun =>
    refine o.shifted rfl (Or.inl rfl) ⟨nofun, nofun⟩ rfl rfl rfl rfl fun _ => ?_
    exact ⟨_, List.mem_append_right _ (List.mem_singleton_self _)⟩
  | copied =>
    refine o.shifted rfl (Or.inr rfl) ⟨nofun, nofun⟩ rfl rfl rfl rfl fun h => absurd h ?_
    exact Phase.shift_ne nofun
  | snapshotEnded hplace =>
    -- A snapshot that waits for the offsets is not the one that ends.
    refine { o with snapshotting := fun h => ?_ }
    obtain ⟨id, hwaits⟩ := o.snapshotting h
    obtain ⟨i, hi⟩ := List.getElem?_of_mem hwaits
    refine ⟨id, List.mem_eraseIdx_iff_getElem?.mpr ⟨i, ?_, hi⟩⟩
    rintro rfl
    cases hi.symm.trans hplace

theorem performAll (o : s.Orderly) (parts : Components δ ω) (actions : List SessionAction) :
    (s.performAll parts actions).Orderly := by
  induction actions generalizing s with
  | nil => exact o
  | cons a actions ih => exact ih (o.of_step (perform_step parts.movesAnywhere s a))

end Orderly

theorem Step.begins (h : s.Step parts G a s') (hs : s.isRunning = false)
    (hs' : s'.isRunning = true) : s.connector.phase = .opened ∧ s'.connector.phase = .running := by
  cases h with
  | begun hphase => exact ⟨hphase, rfl⟩
  | fetched hrun | tracked hrun | discoveryEnded hrun | searched hrun | finished hrun
  | failed hrun => cases hs.symm.trans hrun
  | idle | restored | opened | openFailed | snapshotBegun | copied | snapshotEnded
  | completionBegun | completed | cancelled | closed => cases hs.symm.trans hs'

theorem Orderly.returns (o : s.Orderly) (h : s.Step parts G a s') (hs : s.isRunning = true)
    (hs' : s'.isRunning = false) : s'.connector.phase.isStopping = true := by
  cases h with
  | finished hrun hresult hfailure => exact o.stopping_of_ended hrun hresult hfailure
  | failed => exact Phase.isStopping_stop s.connector.phase
  | begun => cases hs'
  | idle | restored | opened | openFailed | fetched | tracked | discoveryEnded | searched
  | snapshotBegun | copied | snapshotEnded | completionBegun | completed | cancelled | closed =>
    cases hs.symm.trans hs'

/-- What a phase does not allow is answered at once, and nothing else happens. -/
theorem Orderly.refused (o : s.Orderly) (parts : Components δ ω) {r : Except SourceError Unit}
    (h : a.refusal? s.connector.config.commitMode s.connector.phase = some r) :
    s.answer? parts a = some r ∧ s.perform parts a = s := by
  cases a with
  | restore bytes =>
    obtain ⟨hphase, h⟩ := Option.ite_none_left_eq_some.mp h
    have hrefused := Connector.restoreFrom_refused hphase (Snapshot.read bytes)
    simp only [answer?, perform, Connector.restore, hrefused]
    exact ⟨h, trivial⟩
  | restoreRelease release bytes =>
    obtain ⟨hphase, h⟩ := Option.ite_none_left_eq_some.mp h
    have hrefused := Connector.restoreFrom_refused hphase (Snapshot.readFrom release bytes)
    simp only [answer?, perform, Connector.restoreRelease, hrefused]
    exact ⟨h, trivial⟩
  | «open» =>
    obtain ⟨hphase, h⟩ := Option.ite_none_left_eq_some.mp h
    simp only [answer?, perform, Connector.open_refused hphase]
    exact ⟨h, trivial⟩
  | run =>
    obtain ⟨hphase, h⟩ := Option.ite_none_left_eq_some.mp h
    have hbegin : ConnectorRun.begin s.connector s.world = .error r := by
      rw [ConnectorRun.begin, if_neg hphase]
      split at h
      next hstop => rw [if_pos hstop, Option.some.inj h]
      next hstop => rw [if_neg hstop, Option.some.inj h]
    simp only [answer?, perform, hbegin]
    exact ⟨trivial, trivial⟩
  | beginSnapshot id =>
    obtain ⟨hphase, h⟩ := Option.ite_none_left_eq_some.mp h
    simp only [answer?, perform, Connector.beginSnapshot_refused hphase]
    exact ⟨h, trivial⟩
  | beginCompletion id =>
    have hanswer : s.connector.completionAnswer? = some r := by
      obtain ⟨hmode, h⟩ := Option.ite_none_left_eq_some.mp h
      rw [Connector.completionAnswer?, if_neg hmode]
      split at h
      next hstop => rw [if_pos hstop, h]
      next hlive =>
        -- Before the opening there is nothing to commit with.
        obtain ⟨hphase, h⟩ := Option.ite_none_right_eq_some.mp h
        simp only [if_neg hlive, o.unset hphase, h]
    simp only [answer?, perform, hanswer]
    exact ⟨trivial, trivial⟩
  | close =>
    obtain ⟨hphase, h⟩ := Option.ite_none_right_eq_some.mp h
    simp only [answer?, perform, Connector.close, if_pos hphase]
    exact ⟨h, trivial⟩
  | fetch | discover | finish | copySnapshot | endSnapshot | commitPending | cancel => cases h

theorem perform_fault (parts : Components δ ω) (s : Session δ ω) {fault : Snapshot.Fault}
    (h : a.decoded? = some (.error fault)) :
    (∃ e, s.answer? parts a = some (.error e)) ∧ s.perform parts a = s := by
  obtain ⟨e, he⟩ := s.connector.restoreFrom_fault fault
  cases a with
  | restore bytes =>
    simp only [answer?, perform, Connector.restore, Option.some.inj h, he]
    exact ⟨⟨e, rfl⟩, trivial⟩
  | restoreRelease release bytes =>
    simp only [answer?, perform, Connector.restoreRelease, Option.some.inj h, he]
    exact ⟨⟨e, rfl⟩, trivial⟩
  | «open» | run | fetch | discover | finish | beginSnapshot | copySnapshot | endSnapshot
  | beginCompletion | commitPending | cancel | close => cases h

theorem Orderly.granted (o : s.Orderly) (parts : Components δ ω) {p : Phase}
    (h : a.refusal? s.connector.config.commitMode s.connector.phase = none)
    (hp : a.target? s.connector.phase = some p) : (s.perform parts a).connector.phase = p := by
  cases a with
  | run =>
    obtain rfl := Option.some.inj hp
    have hphase : s.connector.phase = .opened := by
      refine Decidable.byContradiction fun hne => ?_
      have hrefused := ite_eq_left_iff.mp h hne
      split at hrefused <;> cases hrefused
    simp only [perform, ConnectorRun.begin, if_pos hphase]
  | beginSnapshot id =>
    obtain rfl := Option.some.inj hp
    have hphase : s.connector.phase ∈ [.opened, .running, .snapshotting] := by
      refine Decidable.byContradiction fun hne => ?_
      cases ite_eq_left_iff.mp h hne
    -- The offsets are there to be copied in each of these phases.
    obtain ⟨f, hf⟩ : ∃ f, s.connector.fetcher = some f := by
      simp only [List.mem_cons, List.not_mem_nil, or_false] at hphase
      exact Option.isSome_iff_exists.mp (o.ready (hphase.imp_right o.live))
    have hbegin : s.connector.beginSnapshot =
        (.ok (), { s.connector with phase := s.connector.phase.shift .running .snapshotting }) := by
      simp only [Connector.beginSnapshot, Connector.require, List.contains_iff_mem.mpr hphase,
        if_true, hf]
    simp only [perform, hbegin]
  | cancel => exact Option.some.inj hp
  | close =>
    obtain rfl := Option.some.inj hp
    exact Connector.close_phase parts s.connector s.world
  | restore | restoreRelease | «open» | fetch | discover | finish | copySnapshot | endSnapshot
  | beginCompletion | commitPending => cases hp

theorem phase_of_open (parts : Components δ ω) (s : Session δ ω)
    (h : s.answer? parts .open = some (.ok ())) :
    (s.perform parts .open).connector.phase = .opened := by
  obtain ⟨_, _, _, _, _, _, -, -, -, hopened, -⟩ := Connector.open_ok (Option.some.inj h)
  simp only [perform, hopened]
  rfl

theorem restored_of_decoded (parts : Components δ ω) (s : Session δ ω) {restored : OffsetState}
    (h : a.decoded? = some (.ok restored))
    (hallowed : a.refusal? s.connector.config.commitMode s.connector.phase = none) :
    (s.perform parts a).connector.restored = some restored := by
  have hphase (ha : a.isRestore = true) : s.connector.phase = .created := by
    refine Decidable.byContradiction fun hne => ?_
    cases a with
    | restore | restoreRelease => cases ite_eq_left_iff.mp hallowed hne
    | _ => cases ha
  cases a with
  | restore bytes =>
    simp only [perform, Connector.restore, Option.some.inj h,
      Connector.restoreFrom_of_created (hphase rfl)]
    rfl
  | restoreRelease release bytes =>
    simp only [perform, Connector.restoreRelease, Option.some.inj h,
      Connector.restoreFrom_of_created (hphase rfl)]
    rfl
  | «open» | run | fetch | discover | finish | beginSnapshot | copySnapshot | endSnapshot
  | beginCompletion | commitPending | cancel | close => cases h

end Session

namespace Lifecycle

variable {s : Lifecycle δ ω}

structure Closes (s s' : Lifecycle δ ω) : Prop where
  rank : s.connector.phase.rank ≤ s'.connector.phase.rank
  phase : s'.connector.phase.isStopping = true
  /-- Fetching is cancelled, unless the connector was asked to stop before. -/
  fetcher : s'.connector.fetcher = s.connector.fetcher ∧ s.connector.phase.isStopping = true ∨
    s'.connector.fetcher = s.connector.fetcher.map Fetcher.cancel
  /-- Apart from the discoverer and the world, nothing else changes in the session. -/
  session : ∃ discoverer w, s'.toSession = { s.toSession with
    connector := { s.connector with
      phase := s'.connector.phase, discoverer := discoverer, fetcher := s'.connector.fetcher }
    world := w }

namespace Closes

variable {s' : Lifecycle δ ω}

omit [Libraries] in
theorem isRunning (h : s.Closes s') : s'.isRunning = s.isRunning := by
  obtain ⟨d, w, hsession⟩ := h.session
  rw [hsession]

omit [Libraries] in
theorem fetch (h : s.Closes s') : s'.fetch = s.fetch := by
  obtain ⟨d, w, hsession⟩ := h.session
  rw [hsession]

omit [Libraries] in
theorem exists_fetcher (h : s.Closes s') (f : Fetcher) (hf : s.connector.fetcher = some f) :
    ∃ f', s'.connector.fetcher = some f' ∧ (f.isCancelled = true → f'.isCancelled = true) := by
  rcases h.fetcher with ⟨hsame, -⟩ | hcancelled
  · exact ⟨f, hsame.trans hf, id⟩
  · obtain ⟨f', hf', hkept⟩ := Fetcher.exists_cancel f hf
    exact ⟨f', hcancelled.trans hf', hkept⟩

end Closes

omit [Libraries] in
theorem beginClose_cases (s : Lifecycle δ ω) : s.beginClose = s ∨ s.Closes s.beginClose := by
  unfold beginClose
  split
  · exact Or.inl rfl
  · right
    constructor
    case rank => exact Phase.rank_le_stop s.connector.phase
    case phase => exact Phase.isStopping_stop s.connector.phase
    case fetcher => exact Or.inr rfl
    case session => exact ⟨_, _, rfl⟩

omit [Libraries] in
theorem continueClose_cases (parts : Components δ ω) (place : Nat)
    (hclosing : s.closing ≠ [] → s.connector.phase.isStopping = true) :
    s.continueClose parts place = s ∨ s.Closes (s.continueClose parts place) := by
  -- A call that is under way has asked the connector to stop.
  have hstop {stage : ClosingStage} (h : s.closing[place]? = some stage) :
      s.connector.phase.isStopping = true :=
    hclosing (List.ne_nil_of_mem (List.mem_of_getElem? h))
  unfold continueClose
  split
  next => exact Or.inl rfl
  next hplace =>
    obtain ⟨first, d, w, -, h⟩ :=
      Connector.closeDiscoverer_moves parts.movesAnywhere s.connector s.world
    simp only [h]
    right
    constructor
    case rank => exact Nat.le_refl _
    case phase => exact hstop hplace
    case fetcher => exact Or.inl ⟨rfl, hstop hplace⟩
    case session => exact ⟨_, _, rfl⟩
  next first hplace =>
    obtain ⟨second, w, -, h⟩ :=
      Connector.closeFetcher_moves parts.movesAnywhere s.connector s.world
    simp only [h]
    right
    constructor
    case rank => exact Nat.le_refl _
    case phase => exact hstop hplace
    case fetcher => exact Or.inr rfl
    case session => exact ⟨_, _, rfl⟩
  next hplace =>
    right
    constructor
    case rank => exact Phase.rank_le_closed s.connector.phase
    case phase => rfl
    case fetcher => exact Or.inl ⟨rfl, hstop hplace⟩
    case session => exact ⟨_, _, rfl⟩

/-- What one section does: one of a session, one of closing, or nothing. -/
inductive Step (parts : Components δ ω) (s : Lifecycle δ ω) : Lifecycle δ ω → Prop where
  | session {a : SessionAction} {s' : Session δ ω}
      (h : s.toSession.Step parts (fun _ _ => True) a s') : Step parts s { s with toSession := s' }
  | closes {s' : Lifecycle δ ω} (h : s.Closes s') : Step parts s s'
  | idle : Step parts s s

/-- What holds at all times, with the calls that close the connector. -/
structure Orderly (s : Lifecycle δ ω) : Prop where
  session : s.toSession.Orderly
  closing : s.closing ≠ [] → s.connector.phase.isStopping = true

variable {parts : Components δ ω} {s' : Lifecycle δ ω}

namespace Step

theorem rank_le (h : s.Step parts s') : s.connector.phase.rank ≤ s'.connector.phase.rank := by
  cases h with
  | session h => exact h.rank_le
  | closes h => exact h.rank
  | idle => exact Nat.le_refl _

theorem begins (h : s.Step parts s') (hs : s.isRunning = false) (hs' : s'.isRunning = true) :
    s.connector.phase = .opened ∧ s'.connector.phase = .running := by
  cases h with
  | session h => exact h.begins hs hs'
  | closes h => cases (h.isRunning.trans hs).symm.trans hs'
  | idle => cases hs.symm.trans hs'

end Step

theorem performAll_append (parts : Components δ ω) (s : Lifecycle δ ω)
    (earlier later : List LifecycleAction) :
    s.performAll parts (earlier ++ later) = (s.performAll parts earlier).performAll parts later :=
  List.foldl_append ..

namespace Orderly

theorem start {config : SourceConfig} {index count : UInt64} {c : Connector δ}
    (hc : Connector.create config index count = .ok c) (w : ω) : (start c w).Orderly :=
  ⟨Session.Orderly.start hc w, fun h => absurd rfl h⟩

theorem perform_step (o : s.Orderly) (parts : Components δ ω) (a : LifecycleAction) :
    s.Step parts (s.perform parts a) := by
  cases a with
  | session a => exact .session (Session.perform_step parts.movesAnywhere s.toSession a)
  | beginClose =>
    simp only [perform]
    rcases s.beginClose_cases with h | h
    · rw [h]
      exact .idle
    · exact .closes h
  | continueClose place =>
    simp only [perform]
    rcases continueClose_cases parts place o.closing with h | h
    · rw [h]
      exact .idle
    · exact .closes h

theorem of_step (o : s.Orderly) (h : s.Step parts s') : s'.Orderly := by
  cases h with
  -- A call that closes the connector goes on only after a request to stop, which is for good.
  | session h => exact ⟨o.session.of_step h, fun hclosing => h.isStopping (o.closing hclosing)⟩
  | closes h =>
    have hrun (hrun : s'.isRunning = true) : s.isRunning = true := h.isRunning.symm.trans hrun
    exact ⟨o.session.stopped h.phase h.exists_fetcher hrun h.fetch, fun _ => h.phase⟩
  | idle => exact o

theorem returns (o : s.Orderly) (h : s.Step parts s') (hs : s.isRunning = true)
    (hs' : s'.isRunning = false) : s'.connector.phase.isStopping = true := by
  cases h with
  | session h => exact o.session.returns h hs hs'
  | closes h => exact h.phase
  | idle => cases hs.symm.trans hs'

theorem performAll (o : s.Orderly) (parts : Components δ ω) (actions : List LifecycleAction) :
    (s.performAll parts actions).Orderly := by
  induction actions generalizing s with
  | nil => exact o
  | cons a actions ih => exact ih (o.of_step (o.perform_step parts a))

theorem rank_le_performAll (o : s.Orderly) (parts : Components δ ω)
    (actions : List LifecycleAction) :
    s.connector.phase.rank ≤ (s.performAll parts actions).connector.phase.rank := by
  induction actions generalizing s with
  | nil => exact Nat.le_refl _
  | cons a actions ih =>
    have hstep := o.perform_step parts a
    exact Nat.le_trans hstep.rank_le (ih (o.of_step hstep))

/-- What a phase does not allow is answered at once, and nothing else happens. -/
theorem refused (o : s.Orderly) (parts : Components δ ω) {a : LifecycleAction}
    {r : Except SourceError Unit}
    (h : a.refusal? s.connector.config.commitMode s.connector.phase = some r) :
    s.answer? parts a = some r ∧ s.perform parts a = s := by
  cases a with
  | session a =>
    obtain ⟨hanswer, hsame⟩ := o.session.refused parts h
    refine ⟨hanswer, ?_⟩
    simp only [Lifecycle.perform, hsame]
  | beginClose =>
    obtain ⟨hphase, h⟩ := Option.ite_none_right_eq_some.mp h
    simp only [answer?, Lifecycle.perform, beginClose, if_pos hphase]
    exact ⟨h, trivial⟩
  | continueClose => cases h

end Orderly

/-- A close that nothing interrupts does and answers what it does as one section. -/
theorem performAll_close (parts : Components δ ω) (s : Lifecycle δ ω) :
    let place := s.closing.length
    let t := s.performAll parts [.beginClose, .continueClose place, .continueClose place]
    t.perform parts (.continueClose place) = s.perform parts (.session .close) ∧
      (s.connector.phase ≠ .closed →
        t.answer? parts (.continueClose place) = s.answer? parts (.session .close)) := by
  intro place t
  by_cases hphase : s.connector.phase = .closed
  · -- Nothing is under way at the place, so that the other sections do nothing either.
    have hbegin : s.beginClose = s := if_pos hphase
    have hcontinue : s.continueClose parts place = s := by
      rw [continueClose, List.getElem?_eq_none (Nat.le_refl _)]
    have hclose : s.connector.close parts s.world = (.ok (), s.connector, s.world) := if_pos hphase
    have ht : t = s := by
      simp only [t, performAll, List.foldl, perform, hbegin, hcontinue]
    refine ⟨?_, fun h => absurd hphase h⟩
    simp only [ht, perform, hcontinue, Session.perform, hclose]
  · rcases hd : s.connector.cancel.closeDiscoverer parts.discoverer s.world with ⟨first, c₁, w₁⟩
    rcases hf : c₁.closeFetcher parts.client w₁ with ⟨second, c₂, w₂⟩
    have hclose : s.connector.close parts s.world =
        (first.bind fun _ => second, { c₂ with phase := .closed }, w₂) := by
      rw [Connector.close, if_neg hphase]
      simp only [hd, hf]
    have ht : t = { s with
        connector := c₂, world := w₂
        closing := s.closing ++ [.ending (first.bind fun _ => second)] } := by
      simp [t, place, performAll, perform, beginClose, hphase, continueClose, hd, hf]
    constructor
    · simp [ht, place, perform, continueClose, Session.perform, hclose,
        List.eraseIdx_append_of_length_le]
    · intro _
      simp [ht, place, answer?, Session.answer?, hclose]

/-- The operations of a connector keep to the order of its phases. -/
structure InOrder (parts : Components δ ω) (s : Lifecycle δ ω) : Prop where
  forward : ∀ later, s.connector.phase.rank ≤ (s.performAll parts later).connector.phase.rank
  /-- The connector fetches only while a run is under way, and then there is what fetches. -/
  live : s.connector.phase = .running ∨ s.connector.phase = .snapshotting → s.isRunning = true
  fetching : s.isRunning = true → s.connector.fetcher.isSome = true
  snapshotting : s.connector.phase = .snapshotting → s.snapshots ≠ []
  begins : ∀ a, s.isRunning = false → (s.perform parts a).isRunning = true →
    s.connector.phase = .opened ∧ (s.perform parts a).connector.phase = .running
  returns : ∀ a, s.isRunning = true → (s.perform parts a).isRunning = false →
    (s.perform parts a).connector.phase = .cancelling ∨
      (s.perform parts a).connector.phase = .closed
  /-- What the phase does not allow is answered at once and changes nothing, neither in the connector
  nor in the world. No client and no discoverer is asked, since any others give the same. -/
  refused : ∀ a r, a.refusal? s.connector.config.commitMode s.connector.phase = some r →
    ∀ others, s.answer? others a = some r ∧ s.perform others a = s
  granted : ∀ (a : SessionAction) (p : Phase),
    a.refusal? s.connector.config.commitMode s.connector.phase = none →
    a.target? s.connector.phase = some p → (s.perform parts (.session a)).connector.phase = p
  opened : s.answer? parts (.session .open) = some (.ok ()) →
    (s.perform parts (.session .open)).connector.phase = .opened
  restored : ∀ (a : SessionAction) (restored : OffsetState), a.decoded? = some (.ok restored) →
    a.refusal? s.connector.config.commitMode s.connector.phase = none →
    (s.perform parts (.session a)).connector.restored = some restored
  /-- Bytes that cannot be decoded change nothing in any phase. -/
  undecodable : ∀ (a : SessionAction) (fault : Snapshot.Fault), a.decoded? = some (.error fault) →
    (∃ e, s.answer? parts (.session a) = some (.error e)) ∧ s.perform parts (.session a) = s

/-- Whatever is asked of a connector in whatever order, and whatever its client and its discoverer do:
the phase only moves forward, and it is that of a snapshot only while one is under way. A run begins in
one phase only, and when it returns, the connector was asked to stop. An operation that the phase allows
is done; one that it does not allow changes nothing, and nor do bytes that cannot be decoded. -/
theorem phases_in_order {config : SourceConfig} {index count : UInt64} {c : Connector δ}
    (hc : Connector.create config index count = .ok c) (parts : Components δ ω) (w : ω)
    (actions : List LifecycleAction) : ((start c w).performAll parts actions).InOrder parts := by
  have o := (Orderly.start hc w).performAll parts actions
  generalize (start c w).performAll parts actions = s at o
  constructor
  case forward => exact o.rank_le_performAll parts
  case live => exact o.session.live
  case fetching => exact fun hrun => o.session.ready (Or.inr hrun)
  case snapshotting =>
    intro h
    obtain ⟨id, hwaits⟩ := o.session.snapshotting h
    exact List.ne_nil_of_mem hwaits
  case begins => exact fun a => (o.perform_step parts a).begins
  case returns =>
    intro a hs hs'
    exact Phase.eq_of_isStopping (o.returns (o.perform_step parts a) hs hs')
  case refused => exact fun a r h others => o.refused others h
  case granted => exact fun a p h hp => o.session.granted parts h hp
  case opened => exact s.toSession.phase_of_open parts
  case restored => exact fun a restored h hallowed => s.restored_of_decoded parts h hallowed
  case undecodable =>
    intro a fault h
    obtain ⟨hanswer, hsame⟩ := s.toSession.perform_fault parts h
    refine ⟨hanswer, ?_⟩
    simp only [perform, hsame]

end Lifecycle

end CheckpointedLog

namespace CheckpointedLog.Lifecycle

open scoped Pattern

/-- The connector is cancelled while a snapshot waits for its offsets, and closed in pieces. -/
theorem phases_in_order_of_cancelled_snapshot :
    let parts : Components BrokerDiscoverer SharedBroker :=
      ⟨SharedBroker.client, BrokerDiscoverer.discoverer SharedBroker.client⟩
    let c : Connector BrokerDiscoverer :=
      { config := { topics := .list ["t"], startup := .latest }, subtask := .single }
    let w : SharedBroker := { broker := (MemoryBroker.ofMaxBatch 5).createTopic "t" 1 }
    let actions : List LifecycleAction :=
      [.session .open, .session .run, .session (.beginSnapshot 7)]
    let s := (start c w).performAll parts actions
    let later : List LifecycleAction :=
      [.session .cancel, .session (.copySnapshot 0), .session (.endSnapshot 0), .session (.fetch 0),
        .beginClose]
    let t := s.performAll parts later
    s.connector.phase = .snapshotting ∧ s.snapshots ≠ [] ∧
      s.connector.phase.rank ≤ t.connector.phase.rank ∧
      t.isRunning = true ∧ (t.perform parts (.session .finish)).isRunning = false ∧
      ((t.perform parts (.session .finish)).connector.phase = .cancelling ∨
        (t.perform parts (.session .finish)).connector.phase = .closed) ∧
      t.perform parts (.session (.beginSnapshot 8)) = t := by
  intro parts c w actions s later t
  have hphase : s.connector.phase = .snapshotting := by
    decide +kernel
  have hrun : t.isRunning = true := by
    decide +kernel
  have hreturned : (t.perform parts (.session .finish)).isRunning = false := by
    decide +kernel
  have hcancelling : t.connector.phase = .cancelling := by
    decide +kernel
  have hcreated : Connector.create c.config 0 1 = .ok c := by
    simp only [c]
    rfl
  clear_value parts c w actions later
  have ht : t = (start c w).performAll parts (actions ++ later) :=
    (performAll_append parts (start c w) actions later).symm
  have hrefused (mode : CommitMode) :
      (LifecycleAction.session (.beginSnapshot 8)).refusal? mode .cancelling =
        some (.error (.invalidState "snapshot state" "cancelling")) := rfl
  have hs : s.InOrder parts := phases_in_order hcreated parts w actions
  have hlater : t.InOrder parts := ht ▸ phases_in_order hcreated parts w (actions ++ later)
  have hrefusals := hlater.refused
  rw [hcancelling] at hrefusals
  exact ⟨hphase, hs.snapshotting hphase, hs.forward later, hrun, hreturned,
    hlater.returns _ hrun hreturned, (hrefusals _ _ (hrefused _) parts).2⟩

end CheckpointedLog.Lifecycle
