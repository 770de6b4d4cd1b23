import CheckpointedLog.Broker.Memory
import CheckpointedLog.Pattern.Reader
import CheckpointedLog.Proofs.Connector.Commits
import CheckpointedLog.Proofs.Connector.Lifecycle
import CheckpointedLog.Proofs.Connector.Ownership

/-!
The end of delivery. A request to stop reaches what fetches through two flags: the phase, which keeps a
run from beginning, and the cancellation of fetching, which is looked at before every record. Whatever
ends delivery sets one of them for good, or the fetch loop has ended; after that the loop may still take
steps, find positions and wait, but records that were polled before are dropped.
-/
namespace CheckpointedLog

variable {δ ω : Type}

/-- Whether an action asks the connector to stop. -/
def LifecycleAction.asksToStop : LifecycleAction → Bool
  | .session .cancel | .session .close | .beginClose => true
  | _ => false

/-- Moves the offset of a partition for a record that was emitted. -/
def Connector.moveOffset (p : Partition) (last : Int64) (c : Connector δ) : Connector δ :=
  { c with fetcher := c.fetcher.map fun f => { f with offsets := (f.offsets.advance p last).2 } }

/-- The emission of the next record, if the callback that takes the record does the action: then the
action comes after the emission and before the offset moves. Nothing if there is no record to emit. -/
def Lifecycle.emitDoing? [Libraries] (parts : Components δ ω) (a : LifecycleAction) (s : Lifecycle δ ω) :
    Option (Lifecycle δ ω) :=
  match s.isRunning, s.connector.fetcher, s.fetch.stage with
  | true, some f, .delivering p (r :: records) rest failure =>
    if r.offset < (s.fetch.positions.get? p).getD 0 ∨ f.isCancelled = true then none
    else
      let emitted : Lifecycle δ ω := { s with history := s.history ++ [.emitted p r] }
      let called := emitted.perform parts a
      some { called with
        connector := called.connector.moveOffset p r.offset
        fetch := { called.fetch with
          stage := .delivering p records rest failure
          positions := called.fetch.positions.insert p (Position.afterCapped r.offset) } }
  | _, _, _ => none

/-- Between the states `s` and `t` delivery comes to its end. -/
inductive Lifecycle.Stops [Libraries] (parts : Components δ ω) (s : Lifecycle δ ω) : Lifecycle δ ω → Prop where
  /-- The connector is asked to stop. -/
  | asked {a : LifecycleAction} (h : a.asksToStop = true) : Stops parts s (s.perform parts a)
  /-- The callback asks the connector to stop when it is given a record. -/
  | inCallback {a : LifecycleAction} {t : Lifecycle δ ω} (ha : a.asksToStop = true)
      (h : s.emitDoing? parts a = some t) : Stops parts s t
  /-- Periodic discovery has failed too often. -/
  | exhausted (h : s.failure.isSome = true) : Stops parts s s
  /-- The fetch loop has failed for good. -/
  | failed {e : SourceError} (h : s.fetch.result? = some (.error e)) : Stops parts s s

namespace FetchLoop.Step

variable {client : BrokerClient ω} {now : Nat} {l l' : FetchLoop} {f f' : Fetcher} {w w' : ω}
  {r : Option Record}

theorem of_result? (h : l.Step client now f w l' f' w' r) (hl : l.result?.isSome = true) :
    l' = l ∧ r = none := by
  cases hs : l.stage with
  | finished result =>
    cases h with
    | ended => exact ⟨rfl, rfl⟩
    | begun h => rcases h with h | ⟨wake, h⟩ <;> cases hs.symm.trans h
    | known h | untracked h | positioned h | overflowed h | unresolved h | resolved h | polled h
    | recorded h | settled h | delivered h | skipped h | dropped h | emitted h =>
      cases hs.symm.trans h
  | idle | positioning | recording | awaiting | delivering | pausing =>
    simp only [result?, hs] at hl
    cases hl

theorem of_isCancelled (h : l.Step client now f w l' f' w' r) (hf : f.isCancelled = true) :
    r = none := by
  cases h with
  | emitted _ _ hlive => cases hf.symm.trans hlive
  | begun | known | untracked | positioned | overflowed | unresolved | resolved | polled | recorded
  | settled | delivered | skipped | dropped | ended => rfl

/-- Without a record, an offset moves only where the position of a sentinel is recorded. -/
theorem get?_offsets (h : l.Step client now f w l' f' w' none) {p : Partition} {o : Offset}
    (ho : f.offsets.get? p = some o) :
    f'.offsets.get? p = some o ∨
      o.isSentinel = true ∧ ∃ n, .resolved p n ∈ (l.event? none).toList ∧
        f'.offsets.get? p = some (.concrete (Position.beforeCapped n)) := by
  cases h with
  | @recorded round todo q n hstage =>
    by_cases hp : p = q
    · subst hp
      cases hs : o.isSentinel with
      | true =>
        refine Or.inr ⟨rfl, n, ?_, get?_recordPosition_self ho hs n⟩
        simp [event?, hstage]
      | false =>
        left
        rw [recordPosition, ho, Option.any_some, hs, if_neg Bool.false_ne_true]
        exact ho
    · exact Or.inl ((get?_recordPosition_of_ne f.offsets n hp).trans ho)
  | begun | known | untracked | positioned | overflowed | unresolved | resolved | polled | settled
  | delivered | skipped | dropped | ended => exact Or.inl ho

end FetchLoop.Step

namespace Session

variable {parts : Components δ ω} {G : ω → ω → Prop} {s s' t u : Session δ ω} {a : SessionAction}
  {events events' : FetchHistory}

/-- Nothing is delivered from `s` to `t`. The `events` in between are all that is seen of fetching, and
an offset that is tracked moves only where the position of its sentinel is found. -/
structure Silent (s t : Session δ ω) (events : FetchHistory) : Prop where
  history : t.history = s.history ++ events
  records : events.records = []
  offsets : ∀ p o, s.connector.currentState.get? p = some o →
    t.connector.currentState.get? p = some o ∨
      o.isSentinel = true ∧ ∃ n, .resolved p n ∈ events ∧
        t.connector.currentState.get? p = some (.concrete (Position.beforeCapped n))

namespace Silent

theorem of_same (hhistory : t.history = s.history)
    (hstate : t.connector.currentState = s.connector.currentState) : s.Silent t [] where
  history := by rw [hhistory, List.append_nil]
  records := rfl
  offsets p o ho := Or.inl (by rw [hstate, ho])

theorem trans (h : s.Silent t events) (h' : t.Silent u events') :
    s.Silent u (events ++ events') where
  history := by rw [h'.history, h.history, List.append_assoc]
  records := by rw [FetchHistory.records_append, h.records, h'.records, List.append_nil]
  offsets p o ho := by
    rcases h.offsets p o ho with hsame | ⟨hs, n, hn, hmoved⟩
    · refine (h'.offsets p o hsame).imp_right ?_
      rintro ⟨hs, n, hn, hmoved⟩
      exact ⟨hs, n, List.mem_append_right events hn, hmoved⟩
    · -- What was resolved on the way is concrete, so that it stays.
      rcases h'.offsets p _ hmoved with hkept | ⟨hconcrete, -⟩
      · exact Or.inr ⟨hs, n, List.mem_append_left events' hn, hkept⟩
      · cases hconcrete

end Silent

/-- Nothing is delivered any more: no run can begin, and the fetch loop has ended or is cancelled. -/
structure Halted (s : Session δ ω) : Prop where
  late : s.connector.phase ≠ .created ∧ s.connector.phase ≠ .opened
  fetching : s.fetch.result?.isSome = true ∨
    ∀ f, s.connector.fetcher = some f → f.isCancelled = true

namespace Halted

theorem of_isStopping (hphase : s.connector.phase.isStopping = true)
    (hfetching : s.fetch.result?.isSome = true ∨
      ∀ f, s.connector.fetcher = some f → f.isCancelled = true) : s.Halted :=
  ⟨⟨Phase.ne_of_isStopping hphase rfl, Phase.ne_of_isStopping hphase rfl⟩, hfetching⟩

theorem shifted (h : s.Halted) {source target : Phase}
    (hphase : s'.connector.phase = s.connector.phase.shift source target)
    (hcreated : target ≠ .created) (hopened : target ≠ .opened)
    (hfetching : s'.fetch.result?.isSome = true ∨
      ∀ f, s'.connector.fetcher = some f → f.isCancelled = true) : s'.Halted where
  late := ⟨fun hc => h.late.1 (Phase.of_shift_eq (hphase.symm.trans hc) hcreated),
    fun ho => h.late.2 (Phase.of_shift_eq (hphase.symm.trans ho) hopened)⟩
  fetching := hfetching

theorem cancelled {fetcher : Option Fetcher} (f : Fetcher)
    (hf : fetcher.map Fetcher.cancel = some f) : f.isCancelled = true := by
  obtain ⟨f', -, rfl⟩ := Option.map_eq_some_iff.mp hf
  rfl

theorem fetched (h : s.Halted) (client : BrokerClient ω) (now : Nat) {f : Fetcher}
    (hf : s.connector.fetcher = some f) :
    (s.stepFetch client now f).Halted ∧ ∃ events, s.Silent (s.stepFetch client now f) events := by
  have hstep := FetchLoop.step_cases client now s.fetch f s.world
  have hnone : (s.fetch.step client now f s.world).2.2.2 = none :=
    h.fetching.elim (fun hl => (hstep.of_result? hl).2) fun hc => hstep.of_isCancelled (hc f hf)
  refine ⟨⟨h.late, ?_⟩, (s.fetch.event? none).toList, ?_⟩
  · -- An ended loop stays ended, and no step takes a cancellation back.
    refine h.fetching.imp (fun hl => ?_) fun hc f' hf' => ?_
    · simp only [stepFetch, ConnectorRun.stepFetch, (hstep.of_result? hl).1]
      exact hl
    · obtain rfl := Option.some.inj hf'
      exact hstep.isCancelled.trans (hc f hf)
  · rw [hnone] at hstep
    constructor
    case history => simp only [stepFetch, ConnectorRun.stepFetch, hnone]
    case records => exact hstep.records_event?
    case offsets =>
      intro p o ho
      rw [Connector.currentState_of_fetcher hf] at ho
      exact hstep.get?_offsets ho

theorem silent_tracked (s : Session δ ω) (discovery : Option DiscoveryLoop) (found : List Partition) :
    s.Silent { s with
      discovery := discovery, connector := ConnectorRun.track found s.connector
      history := s.history ++ [FetchEvent.added found .earliest] } [.added found .earliest] where
  history := rfl
  records := rfl
  offsets p o ho := by
    left
    cases hf : s.connector.fetcher with
    | none =>
      rw [Connector.currentState, hf] at ho
      cases ho
    | some f =>
      rw [Connector.currentState_of_fetcher hf] at ho
      simp only [Connector.currentState, ConnectorRun.track, hf, Option.map_some, Option.elim_some,
        OffsetState.get?_addPartitions, ho, Option.some_or]

/-- Whatever is done next, nothing is delivered, also afterwards. -/
theorem of_step [Libraries] (h : s.Halted) (hstep : s.Step parts G a s') :
    s'.Halted ∧ ∃ events, s.Silent s' events := by
  cases hstep with
  | restored _ hphase | opened hphase => exact absurd hphase h.late.1
  | begun hphase => exact absurd hphase h.late.2
  | idle => exact ⟨h, [], .of_same rfl rfl⟩
  | openFailed | discoveryEnded | finished | snapshotEnded | completionBegun | completed =>
    exact ⟨⟨h.late, h.fetching⟩, [], .of_same rfl rfl⟩
  | fetched _ hf => exact h.fetched parts.client _ hf
  | @tracked now discovery found failures =>
    refine ⟨⟨h.late, h.fetching.imp_right fun hc f hf => ?_⟩, _, silent_tracked s discovery found⟩
    obtain ⟨f', hf', rfl⟩ := Option.map_eq_some_iff.mp hf
    exact hc f' hf'
  | searched _ _ _ hfetcher =>
    rcases hfetcher with ⟨rfl, -⟩ | ⟨rfl, -⟩
    · exact ⟨⟨h.late, h.fetching⟩, [], .of_same rfl rfl⟩
    · exact ⟨⟨h.late, Or.inr cancelled⟩, [], .of_same rfl (Owning.currentState_cancel s.connector)⟩
  | failed | cancelled =>
    exact ⟨.of_isStopping (Phase.isStopping_stop s.connector.phase) (Or.inr cancelled), [],
      .of_same rfl (Owning.currentState_cancel s.connector)⟩
  | closed =>
    exact ⟨.of_isStopping rfl (Or.inr cancelled), [],
      .of_same rfl (Owning.currentState_cancel s.connector)⟩
  | snapshotBegun => exact ⟨h.shifted rfl nofun nofun h.fetching, [], .of_same rfl rfl⟩
  | copied =>
    exact ⟨h.shifted rfl nofun nofun h.fetching, [.copied _], rfl, rfl, fun p o ho => Or.inl ho⟩

end Halted

/-- Whatever fetches is cancelled as soon as the connector was asked to stop or discovery has failed. -/
def Obedient (s : Session δ ω) : Prop :=
  ∀ f, s.connector.fetcher = some f →
    s.connector.phase.isStopping = true ∨ s.failure.isSome = true → f.isCancelled = true

theorem Obedient.of_step [Libraries] (h : s.Obedient) (o : s.Orderly) (hstep : s.Step parts G a s') :
    s'.Obedient := by
  cases hstep with
  | idle | restored | openFailed | discoveryEnded | finished | snapshotEnded | completionBegun
  | completed => exact h
  | opened hphase =>
    -- Nobody has asked for anything yet.
    rintro f - (hstop | hfailed)
    · cases hstop
    · obtain ⟨-, hnone⟩ := o.early (Or.inl hphase)
      rw [show s.failure = none from hnone] at hfailed
      cases hfailed
  | begun => rintro f - (hstop | hfailed) <;> contradiction
  | @fetched now f hrun hf =>
    intro f' hf' hasked
    obtain rfl := Option.some.inj hf'
    exact (FetchLoop.step_cases parts.client now s.fetch f s.world).isCancelled.trans (h f hf hasked)
  | tracked =>
    intro f hf hasked
    obtain ⟨f', hf', rfl⟩ := Option.map_eq_some_iff.mp hf
    exact h f' hf' hasked
  | searched _ _ _ hfetcher =>
    rcases hfetcher with ⟨rfl, rfl⟩ | ⟨rfl, -⟩
    · exact h
    · exact fun f hf _ => Halted.cancelled f hf
  | failed | cancelled | closed => exact fun f hf _ => Halted.cancelled f hf
  | snapshotBegun | copied =>
    -- A snapshot shifts the phase only between two phases in which nobody has asked to stop.
    intro f hf hasked
    refine h f hf (hasked.imp_left fun hstop => ?_)
    rcases Phase.eq_of_isStopping hstop with hp | hp
    · rw [Phase.of_shift_eq hp Phase.noConfusion]
      rfl
    · rw [Phase.of_shift_eq hp Phase.noConfusion]
      rfl

end Session

namespace Connector

theorem cancel_moveOffset (c : Connector δ) (p : Partition) (last : Int64) :
    (c.moveOffset p last).cancel = c.cancel.moveOffset p last := by
  cases hf : c.fetcher with
  | none => simp only [cancel, moveOffset, hf, Option.map_none]
  | some f => simp only [cancel, moveOffset, hf, Option.map_some, Fetcher.cancel]

theorem close_moveOffset (parts : Components δ ω) (c : Connector δ) (p : Partition) (last : Int64)
    (w : ω) :
    (c.moveOffset p last).close parts w =
      ((c.close parts w).1, (c.close parts w).2.1.moveOffset p last, (c.close parts w).2.2) := by
  by_cases hphase : c.phase = .closed
  · simp only [close, moveOffset, hphase, if_true]
  · -- Each of the two parts that are closed may be missing.
    cases hd : c.discoverer <;> cases hf : c.fetcher <;>
      simp [close, moveOffset, hphase, closeDiscoverer, closeFetcher, cancel, hd, hf, Fetcher.close,
        Fetcher.cancel]

end Connector

variable [Libraries]

namespace Lifecycle

variable {parts : Components δ ω} {s s' t : Lifecycle δ ω}

namespace Closes

variable {J : ω → Prop} {I : OffsetState → FetchTrace ω → Prop}

theorem sound (h : s.Closes s') (law : FetchLaw parts J I fun _ _ => True)
    (hsound : s.toSession.Sound J I) : s'.toSession.Sound J I := by
  obtain ⟨discoverer, w, hsession⟩ := h.session
  have hfetcher := h.fetcher
  have hphase := h.phase
  generalize s'.connector.fetcher = fetcher at hfetcher hsession
  generalize s'.connector.phase = phase at hphase hsession
  rw [hsession]
  refine ⟨hsound.valid, hsound.restorable, ?_⟩
  rcases hsound.stage with u | ⟨f, o⟩
  · refine Or.inl { u with fetcher := ?_, phase := Or.inr hphase, world := law.fresh u.world trivial }
    rcases hfetcher with ⟨rfl, -⟩ | rfl
    · exact u.fetcher
    · exact congrArg (Option.map Fetcher.cancel) u.fetcher
  · have hcreated : phase ≠ .created := Phase.ne_of_isStopping hphase rfl
    have hopened : phase ≠ .opened := Phase.ne_of_isStopping hphase rfl
    have htrace : I s.connector.subscribed ((s.trace f).inWorld w) := law.move o.trace trivial
    right
    rcases hfetcher with ⟨rfl, -⟩ | rfl
    · exact ⟨f, o.of_quiet ⟨rfl, rfl, rfl⟩ rfl o.fetcher hcreated htrace
        (fun hp => absurd hp hopened) rfl rfl fun _ _ hpending => hpending⟩
    · exact ⟨f.cancel, o.of_quiet ⟨rfl, rfl, rfl⟩ rfl
        (congrArg (Option.map Fetcher.cancel) o.fetcher) hcreated (law.cancel htrace)
        (fun hp => absurd hp hopened) rfl rfl fun _ _ hpending => hpending⟩

omit [Libraries] in
theorem obedient (h : s.Closes s') (hs : s.Obedient) : s'.Obedient := by
  intro f hf _
  rcases h.fetcher with ⟨hsame, hstop⟩ | hcancelled
  · exact hs f (hsame.symm.trans hf) (Or.inl hstop)
  · exact Session.Halted.cancelled f (hcancelled.symm.trans hf)

omit [Libraries] in
theorem silent (h : s.Closes s') : s.toSession.Silent s'.toSession [] := by
  obtain ⟨discoverer, w, hsession⟩ := h.session
  have hhistory : s'.history = s.history := by rw [hsession]
  refine .of_same hhistory ?_
  rcases h.fetcher with ⟨hsame, -⟩ | hcancelled
  · rw [Connector.currentState, hsame, Connector.currentState]
  · rw [Connector.currentState, hcancelled]
    exact Session.Owning.currentState_cancel s.connector

end Closes

/-- What holds of a connector at all times, as far as the end of delivery depends on it. -/
structure Governed (s : Lifecycle δ ω) : Prop where
  orderly : s.Orderly
  sound : s.toSession.Sound (fun _ => True) fun s t => t.Consistent s ∧ t.Onward
  obedient : s.Obedient

namespace Governed

theorem start {config : SourceConfig} {index count : UInt64} {c : Connector δ}
    (hc : Connector.create config index count = .ok c) (w : ω) : (start c w).Governed where
  orderly := .start hc w
  sound := .of_create hc trivial
  obedient f hf := by
    obtain ⟨-, t, -, rfl⟩ := Connector.create_ok hc
    cases hf

theorem of_step (g : s.Governed) (h : s.Step parts s') : s'.Governed where
  orderly := g.orderly.of_step h
  sound := by
    have law := FetchTrace.Onward.law parts
    cases h with
    | session h => exact g.sound.of_step law h
    | closes h => exact h.sound law g.sound
    | idle => exact g.sound
  obedient := by
    cases h with
    | session h => exact g.obedient.of_step g.orderly.session h
    | closes h => exact h.obedient g.obedient
    | idle => exact g.obedient

theorem performAll (g : s.Governed) (parts : Components δ ω) (actions : List LifecycleAction) :
    (s.performAll parts actions).Governed := by
  induction actions generalizing s with
  | nil => exact g
  | cons a actions ih => exact ih (g.of_step (g.orderly.perform_step parts a))

/-- After its last record, the offset of a partition is that of the record. -/
theorem counted (g : s.Governed) {p : Partition} {r : Record}
    (hr : (s.history.recordsFrom p).getLast? = some r) :
    s.connector.currentState.get? p = some (.concrete r.offset) := by
  rcases g.sound.stage with u | ⟨f, o⟩
  · rw [u.history] at hr
    cases hr
  · have hentry : f.offsets.get? p = s.history.entry s.connector.subscribed p := o.trace.1.entry p
    rw [Connector.currentState_of_fetcher o.fetcher, hentry, FetchHistory.entry, hr]

theorem late_of_result? (g : s.Governed) (h : s.fetch.result?.isSome = true) :
    s.connector.phase ≠ .created ∧ s.connector.phase ≠ .opened := by
  have hnone : s.fetch ≠ {} := by
    intro hfetch
    rw [hfetch] at h
    cases h
  rcases g.sound.stage with u | ⟨f, o⟩
  · exact absurd u.fetch hnone
  · exact ⟨o.phase, fun hphase => hnone (o.unrun hphase).1⟩

theorem late_of_failure (g : s.Governed) (h : s.failure.isSome = true) :
    s.connector.phase ≠ .created ∧ s.connector.phase ≠ .opened := by
  rw [← not_or]
  intro hearly
  rw [(g.orderly.session.early hearly).2] at h
  cases h

end Governed

theorem isStopping_of_asksToStop (parts : Components δ ω) (s : Lifecycle δ ω) {a : LifecycleAction}
    (ha : a.asksToStop = true) : (s.perform parts a).connector.phase.isStopping = true := by
  unfold LifecycleAction.asksToStop at ha
  split at ha
  next => exact Phase.isStopping_stop s.connector.phase
  next =>
    have hclosed := Connector.close_phase parts s.connector s.world
    change (s.connector.close parts s.world).2.1.phase.isStopping = true
    rw [hclosed]
    rfl
  next =>
    change s.beginClose.connector.phase.isStopping = true
    unfold beginClose
    split
    next hclosed =>
      rw [hclosed]
      rfl
    next => exact Phase.isStopping_stop s.connector.phase
  next => cases ha

/-- A request to stop from inside the callback has the same effect as one right after the step. -/
theorem emitDoing?_eq_some {a : LifecycleAction} (ha : a.asksToStop = true)
    (h : s.emitDoing? parts a = some t) :
    ∀ now, t = (s.perform parts (.session (.fetch now))).perform parts a := by
  intro now
  unfold emitDoing? at h
  split at h
  next f p r records rest failure hrun hf hstage =>
    obtain ⟨hlive, h⟩ := Option.ite_none_left_eq_some.mp h
    obtain ⟨hnew, hcancelled⟩ := not_or.mp hlive
    obtain rfl := Option.some.inj h
    have hstep : s.fetch.step parts.client now f s.world =
        ({ s.fetch with
            stage := .delivering p records rest failure
            positions := s.fetch.positions.insert p (Position.afterCapped r.offset) },
          { f with offsets := (f.offsets.advance p r.offset).2 }, s.world, some r) := by
      simp only [FetchLoop.step, hstage, if_neg hnew, if_neg hcancelled]
    -- After the step the offset has moved; what the request does, it also does with the moved offset.
    have hemitted : s.perform parts (.session (.fetch now)) = { s with
        connector := s.connector.moveOffset p r.offset
        fetch := { s.fetch with
          stage := .delivering p records rest failure
          positions := s.fetch.positions.insert p (Position.afterCapped r.offset) }
        history := s.history ++ [.emitted p r] } := by
      simp only [perform, Session.perform, hrun, hf, Session.stepFetch, ConnectorRun.stepFetch, hstep,
        FetchLoop.event?, hstage, Connector.moveOffset, Option.map_some, Option.toList_some]
    rw [hemitted]
    unfold LifecycleAction.asksToStop at ha
    split at ha
    next => simp only [perform, Session.perform, Connector.cancel_moveOffset]
    next => simp only [perform, Session.perform, Connector.close_moveOffset]
    next =>
      have hphase : (s.connector.moveOffset p r.offset).phase = s.connector.phase := rfl
      simp only [perform, beginClose, hphase, Connector.cancel_moveOffset]
      split <;> rfl
    next => cases ha
  next => cases h

/-- Delivery ends by actions of the connector, or without one. -/
theorem Stops.exists_actions (h : s.Stops parts t) : ∃ actions, t = s.performAll parts actions := by
  cases h with
  | @asked a => exact ⟨[a], rfl⟩
  | @inCallback a _ ha h => exact ⟨[.session (.fetch 0), a], emitDoing?_eq_some ha h 0⟩
  | exhausted | failed => exact ⟨[], rfl⟩

/-- Whatever ends delivery has ended the fetch loop or cancelled it. -/
theorem Stops.halted (h : s.Stops parts t) (g : t.Governed) : t.Halted := by
  have hstopped (hstop : t.connector.phase.isStopping = true) : t.Halted :=
    .of_isStopping hstop (Or.inr fun f hf => g.obedient f hf (Or.inl hstop))
  cases h with
  | asked ha => exact hstopped (isStopping_of_asksToStop parts s ha)
  | inCallback ha h =>
    refine hstopped ?_
    rw [emitDoing?_eq_some ha h 0]
    exact isStopping_of_asksToStop parts _ ha
  | exhausted h =>
    exact ⟨g.late_of_failure h, Or.inr fun f hf => g.obedient f hf (Or.inr h)⟩
  | failed h =>
    have hended : s.fetch.result?.isSome = true := by rw [h]; rfl
    exact ⟨g.late_of_result? hended, Or.inl hended⟩

theorem halted_of_step (h : s.Halted) (hstep : s.Step parts s') :
    s'.Halted ∧ ∃ events, s.toSession.Silent s'.toSession events := by
  cases hstep with
  | session hstep => exact h.of_step hstep
  | closes hstep =>
    refine ⟨.of_isStopping hstep.phase (h.fetching.imp (fun hl => ?_) fun hc f hf => ?_), [],
      hstep.silent⟩
    · rw [hstep.fetch]
      exact hl
    · rcases hstep.fetcher with ⟨hsame, -⟩ | hcancelled
      · exact hc f (hsame.symm.trans hf)
      · exact Session.Halted.cancelled f (hcancelled.symm.trans hf)
  | idle => exact ⟨h, [], .of_same rfl rfl⟩

theorem silent_performAll (g : s.Governed) (h : s.Halted) (parts : Components δ ω)
    (later : List LifecycleAction) :
    ∃ events, s.toSession.Silent (s.performAll parts later).toSession events := by
  induction later generalizing s with
  | nil => exact ⟨[], .of_same rfl rfl⟩
  | cons a later ih =>
    have hstep := g.orderly.perform_step parts a
    obtain ⟨hnext, events, hsilent⟩ := halted_of_step h hstep
    obtain ⟨events', hsilent'⟩ := ih (g.of_step hstep) hnext
    exact ⟨events ++ events', hsilent.trans hsilent'⟩

/-- Delivery has ended: whatever is done from now on, no record is emitted and no offset moves because of
one, and the offset of each partition of which records were emitted is that of its last one. -/
structure DeliveryEnded (parts : Components δ ω) (t : Lifecycle δ ω) : Prop where
  silent : ∀ later, ∃ events, t.toSession.Silent (t.performAll parts later).toSession events
  counted : ∀ later p r, ((t.performAll parts later).history.recordsFrom p).getLast? = some r →
    (t.performAll parts later).connector.currentState.get? p = some (.concrete r.offset)

/-- Whatever was done with a connector, and whatever its client and its discoverer do: once the connector
was asked to stop, at any time and also by the callback that takes a record, or discovery has failed too
often, or the fetch loop has failed, nothing is delivered any more. -/
theorem no_delivery_after_stop {config : SourceConfig} {index count : UInt64} {c : Connector δ}
    (hc : Connector.create config index count = .ok c) (parts : Components δ ω) (w : ω)
    (actions : List LifecycleAction) {t : Lifecycle δ ω}
    (h : ((start c w).performAll parts actions).Stops parts t) : t.DeliveryEnded parts := by
  have g : t.Governed := by
    obtain ⟨last, rfl⟩ := h.exists_actions
    exact ((Governed.start hc w).performAll parts actions).performAll parts last
  have hhalted := h.halted g
  constructor
  case silent => exact silent_performAll g hhalted parts
  case counted => exact fun later p r => (g.performAll parts later).counted

end Lifecycle

end CheckpointedLog

namespace CheckpointedLog.Lifecycle

open scoped Pattern

/-- The callback cancels at the first of three records: the others are polled already, but they are
dropped, and the first one is counted. -/
theorem no_delivery_after_stop_within_batch :
    let parts : Components BrokerDiscoverer MemoryBroker :=
      ⟨MemoryBroker.client, BrokerDiscoverer.discoverer MemoryBroker.client⟩
    let c : Connector BrokerDiscoverer :=
      { config := { topics := .list ["t"], startup := .earliest }, subtask := .single }
    let b := ((MemoryBroker.ofMaxBatch 5).createTopic "t" 1).append ⟨"t", 0⟩ [[1], [2], [3]]
    let actions : List LifecycleAction :=
      [.session .open, .session .run, .session (.fetch 0), .session (.fetch 0), .session (.fetch 0),
        .session (.fetch 0), .session (.fetch 0)]
    let s := (start c b).performAll parts actions
    let t := s.performAll parts [.session (.fetch 0), .session .cancel]
    let later : List LifecycleAction :=
      [.session (.fetch 0), .session (.fetch 0), .session (.fetch 0), .session .finish, .beginClose]
    s.emitDoing? parts (.session .cancel) = some t ∧ t.DeliveryEnded parts ∧
      (t.performAll parts later).history.records = [⟨⟨"t", 0⟩, 0, [1]⟩] ∧
      (t.performAll parts later).fetch.result? = some (.ok ()) ∧
      (t.performAll parts later).connector.currentState.entries = [(⟨"t", 0⟩, .concrete 0)] := by
  intro parts c b actions s t later
  have hcreated : Connector.create c.config 0 1 = .ok c := by
    simp only [c]
    rfl
  have hcallback : s.emitDoing? parts (.session .cancel) = some t := by
    simp only [t, s, parts, c, b, actions]
    rfl
  have hrecords : (t.performAll parts later).history.records = [⟨⟨"t", 0⟩, 0, [1]⟩] := by
    simp only [t, later, s, parts, c, b, actions]
    rfl
  have hresult : (t.performAll parts later).fetch.result? = some (.ok ()) := by
    simp only [t, later, s, parts, c, b, actions]
    rfl
  have hstate :
      (t.performAll parts later).connector.currentState.entries = [(⟨"t", 0⟩, .concrete 0)] := by
    simp only [t, later, s, parts, c, b, actions]
    rfl
  clear_value parts c b actions later t
  exact ⟨hcallback, no_delivery_after_stop hcreated parts b actions (.inCallback rfl hcallback),
    hrecords, hresult, hstate⟩

end CheckpointedLog.Lifecycle
