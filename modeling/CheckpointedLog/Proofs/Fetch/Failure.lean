import CheckpointedLog.Broker.Scripted
import CheckpointedLog.Proofs.Fetch.History
import CheckpointedLog.Proofs.Fetch.Progress

/-!
Failures of a run. All partitions of a batch are polled, and of those that fail the first one, in the
order of partitions, stands for the batch: if it passes, the run goes on, whatever became of the others,
and if it does not pass, the run ends with it. Nothing but such failures, and an offset that has no
position after it, ends a run with an error.
-/
namespace CheckpointedLog

variable {ω : Type}

/-- What a run ends with when a batch failed, if it ends. -/
def SourceError.verdict? (e : SourceError) : Option (Except SourceError Unit) :=
  if e.isRetryable then none else some (.error e)

def Polled.failure? (o : Polled) : Option SourceError :=
  match o.records with
  | .ok _ => none
  | .error e => some (Fetcher.failureAt o.partition o.position e)

namespace Fetcher

theorem isRetryable_failureAt (p : Partition) (n : Int64) (e : SourceError) :
    (failureAt p n e).isRetryable = e.isRetryable := by
  cases e <;> rfl

theorem exists_failureAt_eq_poll (p : Partition) (n : Int64) {e : SourceError}
    (h : e.isRetryable = false) : ∃ q m message, failureAt p n e = .poll q m message := by
  cases e with
  | transient | timeout | discovery => cases h
  | poll q m message => exact ⟨q, m, message, rfl⟩
  | _ => exact ⟨p, n, _, rfl⟩

end Fetcher

namespace FetchLoop

theorem result?_failRound (f : Fetcher) (now : Nat) (e : SourceError) (l : FetchLoop) :
    (l.failRound f now e).result? = e.verdict? := by
  unfold failRound SourceError.verdict?
  split <;> rfl

end FetchLoop

/-- The steps that it takes to deliver the outcomes of polls. -/
def Polled.steps : List Polled → Nat
  | [] => 0
  | o :: rest =>
    match o.records with
    | .ok records => records.length + steps rest + 1
    | .error _ => steps rest

namespace FetchStage

/-- The steps until the outcomes of the batch are processed. -/
def stepsLeft : FetchStage → Nat
  | .awaiting outcomes _ => Polled.steps outcomes + 1
  | .delivering _ records rest _ => records.length + Polled.steps rest + 1
  | _ => 0

/-- The first failure of the batch, known already or still to be met. -/
def firstFailure? : FetchStage → Option SourceError
  | .awaiting outcomes _ => outcomes.findSome? Polled.failure?
  | .delivering _ _ rest failure => failure.or (rest.findSome? Polled.failure?)
  | _ => none

end FetchStage

namespace FetchLoop

/-- The batch is processed in `n` more steps, and its first failure is `failure`. -/
def Settling (failure : Option SourceError) : Nat → FetchLoop → Prop
  | 0, l => l.result? = failure.bind SourceError.verdict?
  | n + 1, l => l.stage.stepsLeft = n + 1 ∧ l.stage.firstFailure? = failure

variable {client : BrokerClient ω} {now n : Nat} {l l' : FetchLoop} {f f' : Fetcher} {w w' : ω}
  {r : Option Record} {failure : Option SourceError}

/-- Taking outcomes sets aside the first failure and comes to the next records, or to the end. -/
theorem settling_settle (hlive : f.isCancelled = false) (now : Nat) (failure : Option SourceError)
    (l : FetchLoop) (outcomes : List Polled) :
    Settling (failure.or (outcomes.findSome? Polled.failure?)) (Polled.steps outcomes)
      (l.settle f now failure outcomes) := by
  induction outcomes generalizing failure with
  | nil =>
    cases failure with
    | none => rfl
    | some e => exact result?_failRound f now e l
  | cons o rest ih =>
    rw [List.findSome?_cons]
    cases ho : o.records with
    | ok records =>
      have hnone : o.failure? = none := by rw [Polled.failure?, ho]
      rw [Polled.steps, ho, hnone, settle, ho]
      exact ⟨rfl, rfl⟩
    | error e =>
      have hsome : o.failure? = some (Fetcher.failureAt o.partition o.position e) := by
        rw [Polled.failure?, ho]
      have hrest := ih (failure.or (some (Fetcher.failureAt o.partition o.position e)))
      rw [Option.or_assoc, Option.some_or] at hrest
      rw [Polled.steps, ho, hsome, settle, ho]
      simp only [hlive]
      exact hrest

theorem Step.settling (hstep : l.Step client now f w l' f' w' r) (hlive : f.isCancelled = false)
    (hs : Settling failure (n + 1) l) : Settling failure n l' := by
  obtain ⟨hleft, hfirst⟩ := hs
  cases hstep with
  | @settled outcomes wake h =>
    rw [h] at hleft hfirst
    obtain rfl : Polled.steps outcomes = n := Nat.succ.inj hleft
    obtain rfl : outcomes.findSome? Polled.failure? = failure := hfirst
    have hsettled := settling_settle hlive now none l outcomes
    rwa [Option.none_or] at hsettled
  | @delivered p rest known h =>
    rw [h] at hleft hfirst
    obtain rfl : Polled.steps rest = n := by
      simpa [FetchStage.stepsLeft] using hleft
    obtain rfl : known.or (rest.findSome? Polled.failure?) = failure := hfirst
    rw [settleRest, hlive]
    exact settling_settle hlive now known l rest
  | @skipped p x records rest known h | @emitted p x records rest known h =>
    rw [h] at hleft hfirst
    obtain rfl : records.length + Polled.steps rest + 1 = n := by
      simp only [FetchStage.stepsLeft, List.length_cons] at hleft
      omega
    exact ⟨rfl, hfirst⟩
  | dropped _ hcancelled => cases hlive.symm.trans hcancelled
  -- All other steps are taken outside the batch, where nothing is left to process.
  | begun h =>
    rcases h with h | ⟨wake, h⟩
    · rw [h] at hleft
      cases hleft
    · rw [h] at hleft
      cases hleft
  | known h | untracked h | positioned h | overflowed h | unresolved h | resolved h | polled h
  | recorded h | ended h =>
    rw [h] at hleft
    cases hleft

theorem Step.isCancelled (hstep : l.Step client now f w l' f' w' r) :
    f'.isCancelled = f.isCancelled := by
  cases hstep <;> rfl

end FetchLoop

def FetchAction.isStep : FetchAction ω → Bool
  | .step _ => true
  | _ => false

namespace FetchTrace

variable {client : BrokerClient ω} {t : FetchTrace ω} {failure : Option SourceError}

theorem isCancelled_perform (h : t.run.fetcher.isCancelled = true) (a : FetchAction ω) :
    (t.perform client a).run.fetcher.isCancelled = true := by
  cases a with
  | step now =>
    have hstep := FetchLoop.step_cases client now t.run.loop t.run.fetcher t.run.world
    exact hstep.isCancelled.trans h
  | copy | add | world => exact h
  | cancel => rfl

theorem isCancelled_performAll (h : t.run.fetcher.isCancelled = true)
    (actions : List (FetchAction ω)) :
    (t.performAll client actions).run.fetcher.isCancelled = true := by
  induction actions generalizing t with
  | nil => exact h
  | cons a actions ih => exact ih (isCancelled_perform h a)

/-- A batch is processed by the loop alone, whatever else happens meanwhile. -/
theorem settling_performAll {n : Nat} (hs : t.run.loop.Settling failure n)
    {actions : List (FetchAction ω)} (hsteps : actions.countP FetchAction.isStep = n)
    (hlive : (t.performAll client actions).run.fetcher.isCancelled = false) :
    (t.performAll client actions).run.loop.Settling failure 0 := by
  induction actions generalizing t n with
  | nil =>
    obtain rfl : 0 = n := hsteps
    exact hs
  | cons a actions ih =>
    -- Cancelling is for good, so that it did not happen earlier either.
    have hnow : t.run.fetcher.isCancelled = false := by
      apply Bool.eq_false_iff.mpr
      intro hcancelled
      have hlater : (t.performAll client (a :: actions)).run.fetcher.isCancelled = true :=
        isCancelled_performAll hcancelled (a :: actions)
      cases hlive.symm.trans hlater
    cases a with
    | step now =>
      rw [List.countP_cons_of_pos rfl] at hsteps
      subst hsteps
      have hstep := FetchLoop.step_cases client now t.run.loop t.run.fetcher t.run.world
      exact ih (hstep.settling hnow hs) rfl hlive
    | copy | add | cancel | world =>
      rw [List.countP_cons_of_neg Bool.false_ne_true] at hsteps
      exact ih hs hsteps hlive

end FetchTrace

/-- Every failure that may still end the run satisfies `K`, and so does the one that ended it, unless it
is that of an offset without a position after it. Partitions that are to be positioned are tracked. -/
def FetchStage.Accounted (K : SourceError → Prop) (offsets : OffsetState) : FetchStage → Prop
  | .positioning _ todo | .recording _ todo _ _ => ∀ p ∈ todo, offsets.contains p = true
  | .awaiting outcomes _ => ∀ o ∈ outcomes, ∀ e, o.failure? = some e → K e
  | .delivering _ _ rest failure =>
    (∀ e, failure = some e → K e) ∧ ∀ o ∈ rest, ∀ e, o.failure? = some e → K e
  | .finished (.error e) => e.isRetryable = false ∧ K e ∨
    ∃ p, e = .poll p Int64.maxValue "offset overflow" ∧
      offsets.get? p = some (.concrete Int64.maxValue)
  | _ => True

namespace FetchStage.Accounted

variable {K K' : SourceError → Prop} {s t : OffsetState} {stage : FetchStage}

theorem mono (h : stage.Accounted K s) (hK : ∀ e, K e → K' e) (hst : OffsetState.Precedes s t) :
    stage.Accounted K' t := by
  cases stage with
  | positioning | recording => exact fun p hp => hst.contains (h p hp)
  | awaiting => exact fun o ho e he => hK e (h o ho e he)
  | delivering => exact ⟨fun e he => hK e (h.1 e he), fun o ho e he => hK e (h.2 o ho e he)⟩
  | idle | pausing => trivial
  | finished result =>
    cases result with
    | ok => trivial
    | error e =>
      rcases h with ⟨hfatal, hmet⟩ | ⟨p, he, hp⟩
      · exact Or.inl ⟨hfatal, hK e hmet⟩
      · exact Or.inr ⟨p, he, hst.maxValue hp⟩

end FetchStage.Accounted

namespace FetchLoop

variable {K : SourceError → Prop} {s : OffsetState} {client : BrokerClient ω} {now : Nat}
  {l l' : FetchLoop} {f f' : Fetcher} {w w' : ω} {r : Option Record}

theorem accounted_failRound (f : Fetcher) (now : Nat) {e : SourceError} (he : K e) (l : FetchLoop) :
    (l.failRound f now e).stage.Accounted K s := by
  unfold failRound
  cases hretryable : e.isRetryable with
  | true => trivial
  | false => exact Or.inl ⟨hretryable, he⟩

theorem accounted_settle (f : Fetcher) (now : Nat) {failure : Option SourceError} (l : FetchLoop)
    {outcomes : List Polled} (hfailure : ∀ e, failure = some e → K e)
    (houtcomes : ∀ o ∈ outcomes, ∀ e, o.failure? = some e → K e) :
    (l.settle f now failure outcomes).stage.Accounted K s := by
  induction outcomes generalizing failure with
  | nil =>
    cases failure with
    | none => trivial
    | some e => exact accounted_failRound f now (hfailure e rfl) l
  | cons o rest ih =>
    obtain ⟨hfirst, hrest⟩ := List.forall_mem_cons.mp houtcomes
    rw [settle]
    split
    next => exact ⟨hfailure, hrest⟩
    next e ho =>
      split
      · trivial
      · apply ih _ hrest
        intro x hx
        rcases Option.or_eq_some_iff.mp hx with hx | ⟨-, hx⟩
        · exact hfailure x hx
        · apply hfirst x
          rw [Polled.failure?, ho]
          exact hx

theorem accounted_beginRound (f : Fetcher) (now : Nat) (l : FetchLoop) :
    (l.beginRound f now).stage.Accounted K f.offsets := by
  have hkeys : ∀ p ∈ f.offsets.keys, f.offsets.contains p = true := by
    intro p hp
    exact SortedMap.mem_keys_iff.mp hp
  unfold beginRound
  split
  · trivial
  · split
    · trivial
    · exact hkeys

/-- Every failure that a step brings into the run is one that the client gave as an answer. -/
theorem Step.accounted (hstep : l.Step client now f w l' f' w' r) (h : l.stage.Accounted K f.offsets)
    (hresolve : ∀ round p todo sentinel cause, l.stage = .positioning round (p :: todo) →
      l.positions.contains p = false → f.offsets.get? p = some sentinel →
        sentinel.isSentinel = true → (client.resolve p sentinel w).1 = .error cause →
          K (Fetcher.failureAt p sentinel.toRaw cause))
    (hpoll : ∀ round, l.stage = .positioning round [] →
      ∀ o ∈ (pollAll client f.settings.pollTimeoutMs l.positions round w).1,
        ∀ e, o.failure? = some e → K e) :
    l'.stage.Accounted K f'.offsets := by
  cases hstep with
  | begun => exact accounted_beginRound f now l
  | known hs | positioned hs | resolved hs =>
    rw [hs] at h
    exact fun q hq => h q (List.mem_cons_of_mem _ hq)
  | untracked hs hp hnone =>
    rw [hs] at h
    have htracked := h _ (List.mem_cons_self ..)
    rw [SortedMap.contains_eq_true_iff, hnone] at htracked
    obtain ⟨_, hsome⟩ := htracked
    cases hsome
  | @overflowed _ p _ last hs hp hlast hnext =>
    obtain rfl := Position.after?_eq_none_iff.mp hnext
    exact Or.inr ⟨p, rfl, hlast⟩
  | unresolved hs hp hsentinel hs' hr =>
    have hmet := hresolve _ _ _ _ _ hs hp hsentinel hs' (congrArg Prod.fst hr)
    exact accounted_failRound f now hmet l
  | @polled _ outcomes _ _ hs hp =>
    rw [show outcomes = _ from (congrArg Prod.fst hp).symm]
    exact hpoll _ hs
  | @recorded _ _ p n hs =>
    rw [hs] at h
    have hforward := precedes_recordPosition f.offsets p n
    exact fun q hq => hforward.contains (h q hq)
  | settled hs =>
    rw [hs] at h
    exact accounted_settle f now l nofun h
  | delivered hs =>
    rw [hs] at h
    unfold settleRest
    split
    · trivial
    · exact accounted_settle f now l h.1 h.2
  | skipped hs | emitted hs =>
    rw [hs] at h
    exact h
  | dropped => trivial
  | ended => exact h

end FetchLoop

namespace FetchTrace

variable {client : BrokerClient ω} {t : FetchTrace ω} {e : SourceError}

/-- The next step asks the client for a position or for records and is answered with the failure
`cause`, which is `e` in its context. -/
def Meets (client : BrokerClient ω) (t : FetchTrace ω) (cause e : SourceError) : Prop :=
  (∃ round p todo sentinel, t.run.loop.stage = .positioning round (p :: todo) ∧
    t.run.loop.positions.contains p = false ∧
    t.run.fetcher.offsets.get? p = some sentinel ∧ sentinel.isSentinel = true ∧
    (client.resolve p sentinel t.run.world).1 = .error cause ∧
    e = Fetcher.failureAt p sentinel.toRaw cause) ∨
  ∃ round, t.run.loop.stage = .positioning round [] ∧
    ∃ o ∈ (FetchLoop.pollAll client t.run.fetcher.settings.pollTimeoutMs t.run.loop.positions round
      t.run.world).1, o.records = .error cause ∧ e = Fetcher.failureAt o.partition o.position cause

/-- In its context a failure keeps its kind, and it is located unless it passes. -/
theorem Meets.of_fatal {cause : SourceError} (h : t.Meets client cause e) (he : e.isRetryable = false) :
    cause.isRetryable = false ∧ ∃ p n message, e = .poll p n message := by
  obtain ⟨p, n, rfl⟩ : ∃ p n, e = Fetcher.failureAt p n cause := by
    rcases h with ⟨_, p, _, _, _, _, _, _, _, he⟩ | ⟨_, _, o, _, _, he⟩
    · exact ⟨p, _, he⟩
    · exact ⟨o.partition, o.position, he⟩
  rw [Fetcher.isRetryable_failureAt] at he
  exact ⟨he, Fetcher.exists_failureAt_eq_poll p n he⟩

/-- The failure `e` was met at one of the steps among the actions. -/
def Met (client : BrokerClient ω) (t : FetchTrace ω) (actions : List (FetchAction ω))
    (e : SourceError) : Prop :=
  ∃ before now after cause, actions = before ++ .step now :: after ∧
    (t.performAll client before).Meets client cause e

theorem Met.append {actions : List (FetchAction ω)} (h : t.Met client actions e)
    (more : List (FetchAction ω)) : t.Met client (actions ++ more) e := by
  obtain ⟨before, now, after, cause, rfl, hmeets⟩ := h
  refine ⟨before, now, after ++ more, cause, ?_, hmeets⟩
  rw [List.append_assoc, List.cons_append]

theorem accounted_snoc {actions : List (FetchAction ω)} (a : FetchAction ω)
    (h : (t.performAll client actions).run.loop.stage.Accounted (t.Met client actions)
      (t.performAll client actions).run.fetcher.offsets) :
    (t.performAll client (actions ++ [a])).run.loop.stage.Accounted
      (t.Met client (actions ++ [a])) (t.performAll client (actions ++ [a])).run.fetcher.offsets := by
  have hbefore : ∀ e, t.Met client actions e → t.Met client (actions ++ [a]) e := by
    intro e he
    exact he.append [a]
  rw [performAll_append]
  cases a with
  | step now =>
    have hnow (cause e : SourceError) (he : (t.performAll client actions).Meets client cause e) :
        t.Met client (actions ++ [.step now]) e := ⟨actions, now, [], cause, rfl, he⟩
    have hstep := FetchLoop.step_cases client now (t.performAll client actions).run.loop
      (t.performAll client actions).run.fetcher (t.performAll client actions).run.world
    -- Failures that are already known were met earlier, and the others are met at this step.
    apply hstep.accounted (h.mono hbefore (.refl _))
    · intro round p todo sentinel cause hs hp ho hsentinel hr
      exact hnow cause _ (Or.inl ⟨round, p, todo, sentinel, hs, hp, ho, hsentinel, hr, rfl⟩)
    · intro round hs o ho e he
      unfold Polled.failure? at he
      split at he
      next => cases he
      next cause hcause =>
        exact hnow cause e (Or.inr ⟨round, hs, o, ho, hcause, (Option.some.inj he).symm⟩)
  | add o ps => exact h.mono hbefore (OffsetState.precedes_addPartitions _ o ps)
  | copy | cancel | world => exact h.mono hbefore (.refl _)

theorem accounted_append {actions : List (FetchAction ω)} (more : List (FetchAction ω))
    (h : (t.performAll client actions).run.loop.stage.Accounted (t.Met client actions)
      (t.performAll client actions).run.fetcher.offsets) :
    (t.performAll client (actions ++ more)).run.loop.stage.Accounted
      (t.Met client (actions ++ more))
      (t.performAll client (actions ++ more)).run.fetcher.offsets := by
  induction more generalizing actions with
  | nil =>
    rw [List.append_nil]
    exact h
  | cons a more ih =>
    have hrest := ih (accounted_snoc a h)
    rwa [List.append_assoc, List.singleton_append] at hrest

/-- Of the failures of a batch the first one, in the order of partitions, decides: unless fetching was
cancelled, the run ends with it as soon as the outcomes are processed, or it passes and the run goes on.
A run that ended with an error ended with that of reading a partition: the client failed at one of its
steps for good, or there is an offset without a position after it. -/
theorem first_failure_decides (client : BrokerClient ω) (f : Fetcher) (w : ω)
    (actions : List (FetchAction ω)) :
    let t := (begin f w).performAll client actions
    (∀ round now later, t.run.loop.stage = .positioning round [] →
      let outcomes := (FetchLoop.pollAll client t.run.fetcher.settings.pollTimeoutMs
        t.run.loop.positions round t.run.world).1
      let t' := (t.perform client (.step now)).performAll client later
      later.countP FetchAction.isStep = Polled.steps outcomes + 1 →
        t'.run.fetcher.isCancelled = false →
          t'.run.loop.result? = (outcomes.findSome? Polled.failure?).bind SourceError.verdict?) ∧
    ∀ e, t.run.loop.result? = some (.error e) →
      (∃ p n message, e = .poll p n message) ∧
      ((∃ before now after cause, actions = before ++ .step now :: after ∧
        cause.isRetryable = false ∧ ((begin f w).performAll client before).Meets client cause e) ∨
        ∃ p, t.run.fetcher.offsets.get? p = some (.concrete Int64.maxValue)) := by
  intro t
  constructor
  · intro round now later hs outcomes t' hsteps hlive
    have hpolled : ((t.perform client (.step now)).run.loop).Settling
        (outcomes.findSome? Polled.failure?) (Polled.steps outcomes + 1) := by
      simp only [perform, FetchRun.perform, FetchLoop.step, hs]
      exact ⟨rfl, rfl⟩
    exact settling_performAll hpolled hsteps hlive
  · intro e he
    have hbegin : ((begin f w).performAll client []).run.loop.stage.Accounted
        ((begin f w).Met client []) f.offsets := trivial
    have haccounted := accounted_append actions hbegin
    have hstage : t.run.loop.stage = .finished (.error e) := by
      unfold FetchLoop.result? at he
      split at he
      next hstage => rw [hstage, Option.some.inj he]
      next => cases he
    rw [List.nil_append] at haccounted
    change t.run.loop.stage.Accounted _ t.run.fetcher.offsets at haccounted
    rw [hstage] at haccounted
    rcases haccounted with ⟨hfatal, before, now, after, cause, hsplit, hmeets⟩ | ⟨p, he, hp⟩
    · obtain ⟨hcause, hpoll⟩ := hmeets.of_fatal hfatal
      exact ⟨hpoll, Or.inl ⟨before, now, after, cause, hsplit, hcause, hmeets⟩⟩
    · exact ⟨⟨p, _, _, he⟩, Or.inr ⟨p, hp⟩⟩

/-- The first of two failures does not pass, so that the run ends with it. -/
theorem first_failure_decides_fatal :
    let client := ScriptedBroker.client
    let w : ScriptedBroker :=
      { polls := [(⟨"a", 0⟩, [.error (.foreign "authorization revoked")]),
          (⟨"b", 0⟩, [.error (.transient "blip")])] }
    let f : Fetcher :=
      { settings := ⟨10, {}⟩
        offsets := .ofList [(⟨"a", 0⟩, .concrete 4), (⟨"b", 0⟩, .concrete 4)] }
    let e : SourceError := .poll ⟨"a", 0⟩ 5 "authorization revoked"
    let t := (begin f w).performAll client [.step 0, .step 0, .step 0]
    let t' := (t.perform client (.step 0)).performAll client [.step 0]
    t'.run.loop.result? = some (.error e) ∧
      ∃ before now after cause,
        [.step 0, .step 0, .step 0, .step 0, .step 0] = before ++ .step now :: after ∧
          cause.isRetryable = false ∧ ((begin f w).performAll client before).Meets client cause e := by
  intro client w f e t t'
  let outcomes := (FetchLoop.pollAll client t.run.fetcher.settings.pollTimeoutMs
    t.run.loop.positions [⟨"a", 0⟩, ⟨"b", 0⟩] t.run.world).1
  have hstage : t.run.loop.stage = .positioning [⟨"a", 0⟩, ⟨"b", 0⟩] [] := rfl
  have hfirst : outcomes.findSome? Polled.failure? = some e := by
    decide +kernel
  have hsteps : 1 = Polled.steps outcomes + 1 := by
    decide +kernel
  have hlive : t'.run.fetcher.isCancelled = false := by
    decide +kernel
  have hoffsets : t'.run.fetcher.offsets.entries =
      [(⟨"a", 0⟩, .concrete 4), (⟨"b", 0⟩, .concrete 4)] := by
    decide +kernel
  have hverdict : e.verdict? = some (.error e) := rfl
  have hbatch := (first_failure_decides client f w [.step 0, .step 0, .step 0]).1 _ 0 [.step 0]
    hstage hsteps hlive
  have hresult : t'.run.loop.result? = some (.error e) := by
    rw [hbatch, hfirst, Option.bind_some, hverdict]
  have hsame : t' = (begin f w).performAll client
      [.step 0, .step 0, .step 0, .step 0, .step 0] := by
    simp only [t', t, performAll, List.foldl_cons, List.foldl_nil]
  rw [hsame] at hresult hoffsets ⊢
  refine ⟨hresult, ?_⟩
  have hcause := ((first_failure_decides client f w _).2 e hresult).2
  apply hcause.resolve_right
  -- Both partitions are still at 4.
  rintro ⟨p, hp⟩
  have hmem := SortedMap.get?_eq_some_iff.mp hp
  rw [hoffsets] at hmem
  have hlast : Offset.concrete Int64.maxValue ∈ [Offset.concrete 4, .concrete 4] :=
    List.mem_map_of_mem (f := Prod.snd) hmem
  revert hlast
  decide

/-- The same failures the other way round: the one that passes hides the other, and the run goes on. -/
theorem passing_failure_hides_fatal :
    let client := ScriptedBroker.client
    let w : ScriptedBroker :=
      { polls := [(⟨"a", 0⟩, [.error (.transient "blip")]),
          (⟨"b", 0⟩, [.error (.foreign "authorization revoked")])] }
    let f : Fetcher :=
      { settings := ⟨10, {}⟩
        offsets := .ofList [(⟨"a", 0⟩, .concrete 4), (⟨"b", 0⟩, .concrete 4)] }
    let round : List Partition := [⟨"a", 0⟩, ⟨"b", 0⟩]
    let later : List (FetchAction ScriptedBroker) := [.step 0]
    let t := (begin f w).performAll client [.step 0, .step 0, .step 0]
    let outcomes := (FetchLoop.pollAll client t.run.fetcher.settings.pollTimeoutMs
      t.run.loop.positions round t.run.world).1
    let t' := (t.perform client (.step 0)).performAll client later
    t.run.loop.stage = .positioning round [] ∧
      (∃ o ∈ outcomes, ∃ e, o.records = .error e ∧ e.isRetryable = false) ∧
      later.countP FetchAction.isStep = Polled.steps outcomes + 1 ∧
      t'.run.fetcher.isCancelled = false ∧ t'.run.loop.result? = none := by
  intro client w f round later t outcomes t'
  have hstage : t.run.loop.stage = .positioning round [] := rfl
  have houtcomes : outcomes = [⟨⟨"a", 0⟩, 5, .error (.transient "blip")⟩,
      ⟨⟨"b", 0⟩, 5, .error (.foreign "authorization revoked")⟩] := rfl
  have hresult : t'.run.loop.result? = none := by
    apply Option.isNone_iff_eq_none.mp
    decide +kernel
  have hlive : t'.run.fetcher.isCancelled = false := by
    decide +kernel
  refine ⟨hstage, ?_, ?_, hlive, hresult⟩
  · refine ⟨⟨⟨"b", 0⟩, 5, .error (.foreign "authorization revoked")⟩, ?_, _, rfl, rfl⟩
    rw [houtcomes]
    exact List.mem_cons_of_mem _ (List.mem_singleton_self _)
  · rw [houtcomes]
    rfl

end FetchTrace

end CheckpointedLog
