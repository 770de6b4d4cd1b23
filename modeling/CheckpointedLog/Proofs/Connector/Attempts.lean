import CheckpointedLog.Discovery.Recorded
import CheckpointedLog.Proofs.Connector.Opening
import Mathlib.Algebra.BigOperators.Group.Finset.Basic

namespace CheckpointedLog

open scoped BigOperators

variable {δ ω : Type}

/-- The components in a world that keeps the replies of the discoverer. -/
def Components.recorded (parts : Components δ ω) : Components δ (ω × List DiscovererReply) :=
  ⟨parts.client.besides _, parts.discoverer.recorded⟩

/-- How some attempts to find partitions went: the failures after which there was another attempt, and
the answer to the last one. -/
structure Attempts where
  failures : List SourceError
  last : Except SourceError (List Partition)

namespace Attempts

def replies (a : Attempts) : List DiscovererReply :=
  a.failures.map (fun e => .discovered (.error e)) ++ [.discovered a.last]

/-- What the attempts come to if `m` of them are allowed. -/
def result (m : UInt32) (a : Attempts) : Except SourceError (List Partition) :=
  match a.last with
  | .ok ps => .ok ps
  | .error e => .error (if e.isRetryable then .discoveryExhausted m e.message else e)

/-- The time between the attempts, if there were some before. -/
def waitedMs (backoff : Backoff) (before : UInt32) (a : Attempts) : Nat :=
  ∑ j ∈ Finset.range a.failures.length, backoff.delay (before + UInt32.ofNat j)

/-- There is another attempt exactly after each failure that passes, as long as some are `left`. -/
structure Bounded (left : Nat) (a : Attempts) : Prop where
  passing : ∀ e ∈ a.failures, e.isRetryable = true
  within : a.failures.length ≤ left
  exhausted : ∀ e, a.last = .error e → e.isRetryable = true → a.failures.length = left

theorem Bounded.single {left : Nat} {last : Except SourceError (List Partition)}
    (h : ∀ e, last = .error e → e.isRetryable = true → left = 0) : Bounded left ⟨[], last⟩ where
  passing := nofun
  within := Nat.zero_le left
  exhausted e he hpasses := (h e he hpasses).symm

theorem Bounded.cons {left : Nat} {a : Attempts} (h : a.Bounded left) {e : SourceError}
    (he : e.isRetryable = true) : Bounded (left + 1) ⟨e :: a.failures, a.last⟩ where
  passing := List.forall_mem_cons.mpr ⟨he, h.passing⟩
  within := Nat.succ_le_succ h.within
  exhausted e' he' hpasses := congrArg (· + 1) (h.exhausted e' he' hpasses)

theorem waitedMs_cons (backoff : Backoff) (before : UInt32) (e : SourceError) (a : Attempts) :
    waitedMs backoff before ⟨e :: a.failures, a.last⟩ =
      backoff.delay before + a.waitedMs backoff (before + 1) := by
  have hterm (j : Nat) : before + UInt32.ofNat (j + 1) = before + 1 + UInt32.ofNat j := by
    rw [UInt32.ofNat_add, UInt32.add_comm (UInt32.ofNat j), UInt32.add_assoc]
    rfl
  have hfirst : before + UInt32.ofNat 0 = before := UInt32.add_zero before
  rw [waitedMs, List.length_cons, Finset.sum_range_succ', hfirst, Nat.add_comm, waitedMs]
  simp only [hterm]

end Attempts

namespace Connector

section

variable {d : Discoverer δ ω} {backoff : Backoff} {attempt : UInt32} {left waited : Nat} {s t : δ}
  {w v : ω}

theorem discoverWithRetry_last {last : Except SourceError (List Partition)}
    (hd : d.discover s w = (last, t, v))
    (hlast : ∀ e, last = .error e → e.isRetryable = true → left = 0) :
    discoverWithRetry d backoff attempt left waited s w =
      (Attempts.result (attempt + UInt32.ofNat left + 1) ⟨[], last⟩, waited, t, v) := by
  unfold discoverWithRetry
  rw [hd]
  cases last with
  | ok ps => rfl
  | error e =>
    cases he : e.isRetryable with
    | false => simp [Attempts.result, he]
    | true =>
      obtain rfl := hlast e rfl he
      simp [Attempts.result, he]

theorem discoverWithRetry_again {e : SourceError} (hd : d.discover s w = (.error e, t, v))
    (he : e.isRetryable = true) :
    discoverWithRetry d backoff attempt (left + 1) waited s w =
      discoverWithRetry d backoff (attempt + 1) left (waited + backoff.delay attempt) t v := by
  rw [discoverWithRetry, hd]
  simp [he]

end

/-- The ledger of the search for partitions at an opening has the attempts that the answers call for,
and writing it changes nothing. -/
theorem discoverWithRetry_recorded (d : Discoverer δ ω) (backoff : Backoff) (left : Nat)
    (attempt : UInt32) (waited : Nat) (s : δ) (w : ω) (ledger : List DiscovererReply) :
    ∃ (a : Attempts) (t : δ) (v : ω), a.Bounded left ∧
      discoverWithRetry d backoff attempt left waited s w =
        (a.result (attempt + UInt32.ofNat left + 1), waited + a.waitedMs backoff attempt, t, v) ∧
      discoverWithRetry d.recorded backoff attempt left waited s (w, ledger) =
        (a.result (attempt + UInt32.ofNat left + 1), waited + a.waitedMs backoff attempt, t, v,
          ledger ++ a.replies) := by
  rcases hd : d.discover s w with ⟨last, t, v⟩
  have hrecorded : d.recorded.discover s (w, ledger) = (last, t, v, ledger ++ [.discovered last]) := by
    simp only [Discoverer.recorded, hd]
  -- The induction is on the number of attempts that are left.
  induction left generalizing attempt waited s w ledger last t v with
  | zero =>
    exact ⟨⟨[], last⟩, t, v, .single fun _ _ _ => rfl, discoverWithRetry_last hd fun _ _ _ => rfl,
      discoverWithRetry_last hrecorded fun _ _ _ => rfl⟩
  | succ left ih =>
    by_cases hlast : ∀ e, last = .error e → e.isRetryable = false
    · have hends : ∀ e, last = .error e → e.isRetryable = true → left + 1 = 0 := fun e he hpasses =>
        absurd ((hlast e he).symm.trans hpasses) Bool.false_ne_true
      exact ⟨⟨[], last⟩, t, v, .single hends, discoverWithRetry_last hd hends,
        discoverWithRetry_last hrecorded hends⟩
    · -- Only a failure that passes is followed by another attempt.
      obtain ⟨e, rfl, he⟩ : ∃ e, last = .error e ∧ e.isRetryable = true := by
        simpa only [not_forall, Bool.not_eq_false, exists_prop] using hlast
      rcases hnext : d.discover t v with ⟨last, t', v'⟩
      obtain ⟨a, t₂, v₂, hbounded, hplain, hledger⟩ := ih (attempt + 1)
        (waited + backoff.delay attempt) t v (ledger ++ [.discovered (.error e)]) last t' v' hnext
        (by simp only [Discoverer.recorded, hnext])
      -- One attempt more was made, and one less is left: the number of allowed ones stays.
      have hallowed : attempt + 1 + UInt32.ofNat left + 1 = attempt + UInt32.ofNat (left + 1) + 1 := by
        rw [UInt32.ofNat_add, UInt32.add_comm (UInt32.ofNat left), ← UInt32.add_assoc]
        rfl
      refine ⟨⟨e :: a.failures, a.last⟩, t₂, v₂, hbounded.cons he, ?_, ?_⟩
      · rw [discoverWithRetry_again hd he, hplain, hallowed, Attempts.waitedMs_cons, Nat.add_assoc]
        rfl
      · rw [discoverWithRetry_again hrecorded he, hledger, hallowed, Attempts.waitedMs_cons,
          Nat.add_assoc, List.append_assoc]
        rfl

/-- The number of allowed attempts, counted from the first one. -/
theorem allowed_eq {m : UInt32} (hm : m ≠ 0) : 0 + UInt32.ofNat (m.toNat - 1) + 1 = m := by
  have hpos : m.toNat ≠ 0 := fun h => hm (UInt32.toNat_inj.mp h)
  calc 0 + UInt32.ofNat (m.toNat - 1) + 1
      = UInt32.ofNat (m.toNat - 1 + 1) := by
        rw [UInt32.zero_add, UInt32.ofNat_add]
        rfl
    _ = m := by rw [Nat.sub_add_cancel (Nat.pos_of_ne_zero hpos), UInt32.ofNat_toNat]

theorem markAll_recorded (d : Discoverer δ ω) (ps : List Partition) (s : δ) (w : ω)
    (ledger : List DiscovererReply) :
    ∃ marks : List (Partition × Bool), marks.map Prod.fst = ps ∧
      d.recorded.markAll ps s (w, ledger) = ((d.markAll ps s w).1, (d.markAll ps s w).2.1,
        (d.markAll ps s w).2.2, ledger ++ marks.map fun m => .marked m.1 m.2) := by
  induction ps generalizing s w ledger with
  | nil => exact ⟨[], rfl, by simp [Discoverer.markAll]⟩
  | cons p ps ih =>
    rcases hmark : d.mark p s w with ⟨isNew, t, v⟩
    obtain ⟨marks, hmarks, hledger⟩ := ih t v (ledger ++ [.marked p isNew])
    have hrecorded : d.recorded.mark p s (w, ledger) = (isNew, t, v, ledger ++ [.marked p isNew]) := by
      simp only [Discoverer.recorded, hmark]
    refine ⟨(p, isNew) :: marks, congrArg (p :: ·) hmarks, ?_⟩
    simp only [Discoverer.markAll, hrecorded, hmark, hledger, List.append_assoc, List.map_cons,
      List.singleton_append]

/-- The replies of the discoverer to an opening that comes to a result after some time, if at first
nothing was opened. -/
inductive OpeningReplies [Libraries] (c : Connector δ) :
    Except SourceError Unit → (elapsedMs : Nat) → List DiscovererReply → Prop where
  | notStarted (e : SourceError) : OpeningReplies c (.error e) 0 [.started (.error e)]
  /-- The discoverer is closed, and what that gives does not matter. -/
  | notFound {a : Attempts} {e : SourceError} (answer : Except SourceError Unit)
      (hbounded : a.Bounded (c.config.maxDiscoveryAttempts.toNat - 1))
      (hresult : a.result c.config.maxDiscoveryAttempts = .error e) :
      OpeningReplies c (.error e) (a.waitedMs c.config.backoff 0)
        (.started (.ok ()) :: (a.replies ++ [.closed answer]))
  /-- What is tracked is marked. -/
  | found {a : Attempts} {ps : List Partition} {marks : List (Partition × Bool)}
      (hbounded : a.Bounded (c.config.maxDiscoveryAttempts.toNat - 1))
      (hresult : a.result c.config.maxDiscoveryAttempts = .ok ps)
      (hmarks : marks.map Prod.fst = (c.merge (c.subtask.assign ps)).keys) :
      OpeningReplies c (.ok ()) (a.waitedMs c.config.backoff 0)
        (.started (.ok ()) :: (a.replies ++ marks.map fun m => .marked m.1 m.2))

section

variable {parts : Components δ ω} {c : Connector δ} {s t : δ} {w w₁ w₂ : ω} {elapsed : Nat}

theorem require_open (hphase : c.phase = .created) : c.require "open" [.created] = .ok () := by
  rw [require, hphase]
  rfl

theorem open_notStarted [Libraries] {e : SourceError} (hphase : c.phase = .created)
    (hstart : parts.discoverer.start (parts.discoverer.create c.config.topics) w = (.error e, s, w₁)) :
    c.open parts w = { result := .error e, connector := c, world := w₁ } := by
  simp only [«open», require_open hphase, hstart]

theorem open_notFound [Libraries] {e : SourceError} (hphase : c.phase = .created)
    (hstart : parts.discoverer.start (parts.discoverer.create c.config.topics) w = (.ok (), s, w₁))
    (hsearch : discoverWithRetry parts.discoverer c.config.backoff 0
      (c.config.maxDiscoveryAttempts.toNat - 1) 0 s w₁ = (.error e, elapsed, t, w₂)) :
    c.open parts w =
      { result := .error e, elapsedMs := elapsed, connector := c
        world := (parts.discoverer.close t w₂).2.2 } := by
  simp only [«open», require_open hphase, hstart, hsearch]

theorem open_found [Libraries] {ps : List Partition} (hphase : c.phase = .created)
    (hstart : parts.discoverer.start (parts.discoverer.create c.config.topics) w = (.ok (), s, w₁))
    (hsearch : discoverWithRetry parts.discoverer c.config.backoff 0
      (c.config.maxDiscoveryAttempts.toNat - 1) 0 s w₁ = (.ok ps, elapsed, t, w₂)) :
    c.open parts w =
      { result := .ok (), elapsedMs := elapsed
        connector := c.Opened ps
          (parts.discoverer.markAll (c.merge (c.subtask.assign ps)).keys t w₂).2.1
        world := (parts.discoverer.markAll (c.merge (c.subtask.assign ps)).keys t w₂).2.2 } := by
  simp only [«open», require_open hphase, hstart, hsearch]
  rfl

end

theorem open_recorded [Libraries] (parts : Components δ ω) {c : Connector δ} (hphase : c.phase = .created)
    (hattempts : c.config.maxDiscoveryAttempts ≠ 0) (w : ω) (ledger : List DiscovererReply) :
    ∃ replies, c.OpeningReplies (c.open parts w).result (c.open parts w).elapsedMs replies ∧
      c.open parts.recorded (w, ledger) =
        { c.open parts w with world := ((c.open parts w).world, ledger ++ replies) } := by
  rcases hstart : parts.discoverer.start (parts.discoverer.create c.config.topics) w with
    ⟨answer, s, w₁⟩
  have hrecorded : parts.recorded.discoverer.start (parts.recorded.discoverer.create c.config.topics)
      (w, ledger) = (answer, s, w₁, ledger ++ [.started answer]) := by
    simp only [Components.recorded, Discoverer.recorded, hstart]
  cases answer with
  | error e =>
    rw [open_notStarted hphase hstart, open_notStarted hphase hrecorded]
    exact ⟨_, .notStarted e, rfl⟩
  | ok =>
    obtain ⟨a, t, v, hbounded, hsearch, hledger⟩ := discoverWithRetry_recorded parts.discoverer
      c.config.backoff (c.config.maxDiscoveryAttempts.toNat - 1) 0 0 s w₁ (ledger ++ [.started (.ok ())])
    rw [allowed_eq hattempts, Nat.zero_add] at hsearch hledger
    have hentries (more : List DiscovererReply) : ledger ++ [.started (.ok ())] ++ a.replies ++ more =
        ledger ++ .started (.ok ()) :: (a.replies ++ more) := by
      simp only [List.append_assoc, List.cons_append, List.nil_append]
    cases hresult : a.result c.config.maxDiscoveryAttempts with
    | error e =>
      rw [hresult] at hsearch hledger
      rw [open_notFound hphase hstart hsearch, open_notFound hphase hrecorded hledger]
      refine ⟨_, .notFound (parts.discoverer.close t v).1 hbounded hresult, ?_⟩
      rw [← hentries]
      rfl
    | ok ps =>
      rw [hresult] at hsearch hledger
      obtain ⟨marks, hmarks, hmarked⟩ := markAll_recorded parts.discoverer
        (c.merge (c.subtask.assign ps)).keys t v (ledger ++ [.started (.ok ())] ++ a.replies)
      change parts.recorded.discoverer.markAll _ _ _ = _ at hmarked
      rw [open_found hphase hstart hsearch, open_found hphase hrecorded hledger, hmarked]
      refine ⟨_, .found hbounded hresult hmarks, ?_⟩
      rw [← hentries]

end Connector

end CheckpointedLog
