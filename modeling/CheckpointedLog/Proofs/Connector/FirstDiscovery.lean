import CheckpointedLog.Pattern.Reader
import CheckpointedLog.Proofs.Connector.Attempts
import CheckpointedLog.Proofs.Except
import Mathlib.Order.Bounds.Basic

namespace CheckpointedLog

open scoped BigOperators

variable {δ ω : Type}

namespace Discoverer

/-- The discoverer and its world after a number of discoveries. -/
def after (d : Discoverer δ ω) : Nat → δ → ω → δ × ω
  | 0, s, w => (s, w)
  | n + 1, s, w => let (_, s, w) := d.discover s w; d.after n s w

/-- What the discoverer answers after a number of discoveries. -/
def answer (d : Discoverer δ ω) (s : δ) (w : ω) (n : Nat) : Except SourceError (List Partition) :=
  (d.discover (d.after n s w).1 (d.after n s w).2).1

theorem after_recorded (d : Discoverer δ ω) (n : Nat) (s : δ) (w : ω) (ledger : List DiscovererReply) :
    d.recorded.after n s (w, ledger) = ((d.after n s w).1, (d.after n s w).2,
      ledger ++ (List.range n).map fun j => .discovered (d.answer s w j)) := by
  induction n generalizing s w ledger with
  | zero => simp [after]
  | succ n ih =>
    rcases hd : d.discover s w with ⟨r, t, v⟩
    have hrecorded : d.recorded.discover s (w, ledger) = (r, t, v, ledger ++ [.discovered r]) := by
      simp only [recorded, hd]
    have hfirst : d.answer s w 0 = r := by simp only [answer, after, hd]
    have hlater (j : Nat) : d.answer s w (j + 1) = d.answer t v j := by
      simp only [answer, after, hd]
    rw [List.range_succ_eq_map, List.map_cons, List.map_map, hfirst]
    simp only [after, hrecorded, hd, ih, Function.comp_def, hlater, List.append_assoc,
      List.singleton_append]

/-- Whether nothing is asked after an answer: it is a success, or a failure that does not pass. -/
def Decides : Except SourceError (List Partition) → Prop
  | .ok _ => True
  | .error e => e.isRetryable = false

end Discoverer

namespace Connector

/-- The search for partitions leaves the discoverer as some discoveries do. -/
theorem exists_after (d : Discoverer δ ω) (backoff : Backoff) (left : Nat) (attempt : UInt32)
    (waited : Nat) (s : δ) (w : ω) :
    ∃ k, (discoverWithRetry d backoff attempt left waited s w).2.2 = d.after k s w := by
  have hone : ((d.discover s w).2.1, (d.discover s w).2.2) = d.after 1 s w := rfl
  induction left generalizing attempt waited s w with
  | zero =>
    refine ⟨1, ?_⟩
    rw [← hone, discoverWithRetry_last rfl fun _ _ _ => rfl]
  | succ left ih =>
    rcases hd : d.discover s w with ⟨last, t, v⟩
    by_cases hlast : ∀ e, last = .error e → e.isRetryable = true → left + 1 = 0
    · refine ⟨1, ?_⟩
      rw [← hone, hd, discoverWithRetry_last hd hlast]
    · obtain ⟨e, rfl, he⟩ : ∃ e, last = .error e ∧ e.isRetryable = true := by
        simpa using hlast
      obtain ⟨k, hk⟩ := ih (attempt + 1) (waited + backoff.delay attempt) t v rfl
      refine ⟨k + 1, ?_⟩
      rw [discoverWithRetry_again hd he, hk]
      simp only [Discoverer.after, hd]

end Connector

namespace Attempts

structure Given (answers : Nat → Except SourceError (List Partition)) (a : Attempts) : Prop where
  failures : ∀ j e, a.failures[j]? = some e → answers j = .error e
  last : answers a.failures.length = a.last

theorem given_of_replies {answers : Nat → Except SourceError (List Partition)} {a : Attempts} {k : Nat}
    (h : a.replies = (List.range k).map fun j => .discovered (answers j)) :
    k = a.failures.length + 1 ∧ a.Given answers := by
  have hlength := congrArg List.length h
  rw [replies, List.length_append, List.length_map, List.length_singleton, List.length_map,
    List.length_range] at hlength
  have hreply (j : Nat) (hj : j < k) : a.replies[j]? = some (.discovered (answers j)) := by
    rw [h, List.getElem?_map, List.getElem?_range hj]
    rfl
  refine ⟨hlength.symm, fun j e he => ?_, ?_⟩
  · have hj : j < a.failures.length := (List.getElem?_eq_some_iff.mp he).1
    have hanswer := hreply j (by omega)
    rw [replies, List.getElem?_append_left (by rwa [List.length_map]), List.getElem?_map, he] at hanswer
    exact DiscovererReply.discovered.inj (Option.some.inj hanswer.symm)
  · have hanswer := hreply a.failures.length (by omega)
    rw [replies, List.getElem?_append_right (by rw [List.length_map]), List.length_map,
      Nat.sub_self] at hanswer
    exact DiscovererReply.discovered.inj (Option.some.inj hanswer.symm)

/-- As many attempts are made as it takes to reach an answer that decides, or as are allowed. -/
theorem Bounded.isLeast {answers : Nat → Except SourceError (List Partition)} {a : Attempts} {left : Nat}
    (hbounded : a.Bounded left) (hgiven : a.Given answers) :
    IsLeast { n | 0 < n ∧ (n = left + 1 ∨ Discoverer.Decides (answers (n - 1))) }
      (a.failures.length + 1) := by
  constructor
  · refine ⟨Nat.succ_pos _, ?_⟩
    rw [Nat.add_sub_cancel, hgiven.last]
    cases hlast : a.last with
    | ok ps => exact Or.inr trivial
    | error e =>
      cases he : e.isRetryable with
      | false => exact Or.inr he
      | true => exact Or.inl (congrArg (· + 1) (hbounded.exhausted e hlast he))
  · rintro n ⟨hn, rfl | hdecides⟩
    · exact Nat.succ_le_succ hbounded.within
    · -- All answers before the last one are failures that pass.
      by_contra hlt
      have hj : n - 1 < a.failures.length := by omega
      rw [hgiven.failures (n - 1) _ (List.getElem?_eq_getElem hj)] at hdecides
      have hpasses := hbounded.passing _ (List.getElem_mem hj)
      exact Bool.false_ne_true (hdecides.symm.trans hpasses)

end Attempts

variable [Libraries]

namespace Connector

/-- What is asked of the discoverer after the search is no discovery. -/
def NoDiscovery (replies : List DiscovererReply) : Prop := ∀ answer, .discovered answer ∉ replies

section

variable {parts : Components δ ω} {c : Connector δ} {s t : δ} {w w₁ w₂ : ω}
  {r : Except SourceError (List Partition)} {elapsed : Nat} {ledger ledger₁ ledger₂ : List DiscovererReply}

/-- Keeping the replies changes nothing about an opening that searches, and after the search there are
no discoveries. -/
theorem open_recorded_of_search (hphase : c.phase = .created)
    (hstart : parts.discoverer.start (parts.discoverer.create c.config.topics) w = (.ok (), s, w₁))
    (hrecorded : parts.recorded.discoverer.start (parts.recorded.discoverer.create c.config.topics)
      (w, ledger) = (.ok (), s, w₁, ledger₁))
    (hsearch : discoverWithRetry parts.discoverer c.config.backoff 0
      (c.config.maxDiscoveryAttempts.toNat - 1) 0 s w₁ = (r, elapsed, t, w₂))
    (hledger : discoverWithRetry parts.recorded.discoverer c.config.backoff 0
      (c.config.maxDiscoveryAttempts.toNat - 1) 0 s (w₁, ledger₁) = (r, elapsed, t, w₂, ledger₂)) :
    ∃ others, NoDiscovery others ∧ c.open parts.recorded (w, ledger) =
      { c.open parts w with world := ((c.open parts w).world, ledger₂ ++ others) } := by
  cases r with
  | error e =>
    rw [open_notFound hphase hstart hsearch, open_notFound hphase hrecorded hledger]
    exact ⟨[.closed (parts.discoverer.close t w₂).1], by simp [NoDiscovery], rfl⟩
  | ok ps =>
    obtain ⟨marks, -, hmarked⟩ := markAll_recorded parts.discoverer
      (c.merge (c.subtask.assign ps)).keys t w₂ ledger₂
    change parts.recorded.discoverer.markAll _ _ _ = _ at hmarked
    rw [open_found hphase hstart hsearch, open_found hphase hrecorded hledger, hmarked]
    exact ⟨marks.map fun m => .marked m.1 m.2, by simp [NoDiscovery], rfl⟩

/-- An opening whose discoverer started makes bounded attempts, to which the discoverer answers in
turn. -/
theorem open_attempts (hphase : c.phase = .created) (hattempts : c.config.maxDiscoveryAttempts ≠ 0)
    (hstart : parts.discoverer.start (parts.discoverer.create c.config.topics) w = (.ok (), s, w₁)) :
    ∃ a : Attempts, a.Bounded (c.config.maxDiscoveryAttempts.toNat - 1) ∧
      (a.replies = (List.range (a.failures.length + 1)).map fun j =>
        .discovered (parts.discoverer.answer s w₁ j)) ∧
      (∃ t w₂, discoverWithRetry parts.discoverer c.config.backoff 0
        (c.config.maxDiscoveryAttempts.toNat - 1) 0 s w₁ =
          (a.result c.config.maxDiscoveryAttempts, a.waitedMs c.config.backoff 0, t, w₂)) ∧
      ∃ others, NoDiscovery others ∧ c.open parts.recorded (w, []) =
        { c.open parts w with
          world := ((c.open parts w).world, .started (.ok ()) :: (a.replies ++ others)) } := by
  have hrecorded : parts.recorded.discoverer.start (parts.recorded.discoverer.create c.config.topics)
      (w, []) = (.ok (), s, w₁, [.started (.ok ())]) := by
    simp only [Components.recorded, Discoverer.recorded, hstart, List.nil_append]
  obtain ⟨a, t, w₂, hbounded, hsearch, hledger⟩ := discoverWithRetry_recorded parts.discoverer
    c.config.backoff (c.config.maxDiscoveryAttempts.toNat - 1) 0 0 s w₁ [.started (.ok ())]
  -- The ledger has what the discoverer answers in turn, and it has the attempts.
  obtain ⟨k, hk⟩ := exists_after parts.discoverer.recorded c.config.backoff
    (c.config.maxDiscoveryAttempts.toNat - 1) 0 0 s (w₁, [.started (.ok ())])
  rw [hledger, Discoverer.after_recorded] at hk
  have hreplies := List.append_cancel_left (congrArg (fun after => after.2.2) hk)
  rw [allowed_eq hattempts, Nat.zero_add] at hsearch hledger
  obtain ⟨others, hothers, hopen⟩ := open_recorded_of_search hphase hstart hrecorded hsearch hledger
  obtain rfl := (Attempts.given_of_replies hreplies).1
  refine ⟨a, hbounded, hreplies, ⟨t, w₂, hsearch⟩, others, hothers, ?_⟩
  rw [hopen, List.append_assoc]
  rfl

theorem open_goesOn {a : Attempts} (hphase : c.phase = .created)
    (hstart : parts.discoverer.start (parts.discoverer.create c.config.topics) w = (.ok (), s, w₁))
    (hsearch : discoverWithRetry parts.discoverer c.config.backoff 0
      (c.config.maxDiscoveryAttempts.toNat - 1) 0 s w₁ =
        (a.result c.config.maxDiscoveryAttempts, elapsed, t, w₂))
    {ps : List Partition} (hlast : a.last = .ok ps) :
    (c.open parts w).elapsedMs = elapsed ∧ (c.open parts w).result = .ok () ∧
      (c.open parts w).connector.subscribed = c.merge (c.subtask.assign ps) := by
  have hresult : a.result c.config.maxDiscoveryAttempts = .ok ps := by rw [Attempts.result, hlast]
  rw [open_found hphase hstart (hresult ▸ hsearch)]
  exact ⟨rfl, rfl, rfl⟩

/-- An opening reports the failure of the last attempt, or that there may be no other. -/
theorem open_reports {a : Attempts} (hphase : c.phase = .created)
    (hstart : parts.discoverer.start (parts.discoverer.create c.config.topics) w = (.ok (), s, w₁))
    (hsearch : discoverWithRetry parts.discoverer c.config.backoff 0
      (c.config.maxDiscoveryAttempts.toNat - 1) 0 s w₁ =
        (a.result c.config.maxDiscoveryAttempts, elapsed, t, w₂))
    {e : SourceError} (hlast : a.last = .error e) :
    (c.open parts w).elapsedMs = elapsed ∧ (c.open parts w).result = .error
      (if e.isRetryable then .discoveryExhausted c.config.maxDiscoveryAttempts e.message else e) := by
  have hresult : a.result c.config.maxDiscoveryAttempts = .error
      (if e.isRetryable then .discoveryExhausted c.config.maxDiscoveryAttempts e.message else e) := by
    rw [Attempts.result, hlast]
  rw [open_notFound hphase hstart (hresult ▸ hsearch)]
  exact ⟨rfl, rfl⟩

end

end Connector

namespace BrokerDiscoverer

theorem after_fst (client : BrokerClient ω) (n : Nat) (d : BrokerDiscoverer) (w : ω) :
    ((discoverer client).after n d w).1 = d := by
  induction n generalizing w with
  | zero => rfl
  | succ n ih => exact ih (d.discover client w).2

theorem Ready.isRetryable_answer {client : BrokerClient ω} {d : BrokerDiscoverer} (hd : d.Ready)
    {w : ω} {n : Nat} {e : SourceError} (h : (discoverer client).answer d w n = .error e) :
    e.isRetryable = true := by
  have hdiscover : (d.discover client ((discoverer client).after n d w).2).1 = .error e := by
    rw [← h, Discoverer.answer, after_fst]
    rfl
  exact hd.isRetryable (Prod.ext hdiscover rfl)

end BrokerDiscoverer

namespace Connector

/-- A discoverer that asks the broker always starts, and its failures all pass, so that only the number of
attempts ends the search without success. -/
theorem open_fails_exhausted {client : BrokerClient ω} {c : Connector BrokerDiscoverer} {w : ω}
    (hvalid : c.config.validate = .ok ()) (hphase : c.phase = .created) {e : SourceError}
    (he : (c.open ⟨client, BrokerDiscoverer.discoverer client⟩ w).result = .error e) :
    ∃ message, e = .discoveryExhausted c.config.maxDiscoveryAttempts message := by
  obtain ⟨s, hs⟩ := BrokerDiscoverer.exists_start fun text htext =>
    SourceConfig.exists_expression hvalid htext
  have hready := BrokerDiscoverer.ready_of_start hs
  let parts : Components BrokerDiscoverer ω := ⟨client, BrokerDiscoverer.discoverer client⟩
  have hstart : parts.discoverer.start (parts.discoverer.create c.config.topics) w = (.ok (), s, w) := by
    change ((BrokerDiscoverer.start { topics := c.config.topics }).1,
      (BrokerDiscoverer.start { topics := c.config.topics }).2, w) = _
    rw [hs]
  obtain ⟨a, -, hreplies, ⟨t, w₂, hsearch⟩, -⟩ :=
    open_attempts hphase (SourceConfig.maxDiscoveryAttempts_ne_zero hvalid) hstart
  have hgiven := (Attempts.given_of_replies hreplies).2
  cases hlast : a.last with
  | ok ps =>
    obtain ⟨-, hopened, -⟩ := open_goesOn hphase hstart hsearch hlast
    cases he.symm.trans hopened
  | error failure =>
    obtain ⟨-, hreported⟩ := open_reports hphase hstart hsearch hlast
    have hpasses := hready.isRetryable_answer (hgiven.last.trans hlast)
    rw [hpasses, if_pos rfl] at hreported
    exact ⟨failure.message, Except.error.inj (he.symm.trans hreported)⟩

/-- For every valid configuration, every discoverer that starts and everything that it would answer: an
opening discovers exactly as often as it takes to get a success or a failure that does not pass, and at
most the allowed number of times. Between two discoveries it waits for the delay of the backoff. It goes
on with the partitions of the last answer, or reports its failure as it is, or, if that would pass, that
the attempts are exhausted. A discoverer that asks the broker always starts, and an opening fails only by
exhausting its attempts. -/
theorem open_bounds_attempts {config : SourceConfig} (hvalid : config.validate = .ok ()) :
    let m := config.maxDiscoveryAttempts
    (∀ {δ ω : Type} (parts : Components δ ω) (c : Connector δ) (w : ω) (s : δ) (w₁ : ω),
      c.config = config → c.phase = .created →
      parts.discoverer.start (parts.discoverer.create config.topics) w = (.ok (), s, w₁) →
      let answers := parts.discoverer.answer s w₁
      ∃ k, IsLeast { n | 0 < n ∧ (n = m.toNat ∨ Discoverer.Decides (answers (n - 1))) } k ∧
        (∃ others, NoDiscovery others ∧ c.open parts.recorded (w, []) =
          { c.open parts w with
            world := ((c.open parts w).world, .started (.ok ()) ::
              ((List.range k).map (fun j => .discovered (answers j)) ++ others)) }) ∧
        (c.open parts w).elapsedMs =
          ∑ j ∈ Finset.range (k - 1), config.backoff.delay (UInt32.ofNat j) ∧
        match answers (k - 1) with
        | .ok ps => (c.open parts w).result = .ok () ∧
          (c.open parts w).connector.subscribed = c.merge (c.subtask.assign ps)
        | .error e => (e.isRetryable = true → k = m.toNat) ∧ (c.open parts w).result =
          .error (if e.isRetryable then .discoveryExhausted m e.message else e)) ∧
    ∀ {ω : Type} (client : BrokerClient ω) (c : Connector BrokerDiscoverer) (w : ω),
      c.config = config → c.phase = .created →
      ∀ e, (c.open ⟨client, BrokerDiscoverer.discoverer client⟩ w).result = .error e →
        ∃ message, e = .discoveryExhausted m message := by
  intro m
  have hm : m ≠ 0 := SourceConfig.maxDiscoveryAttempts_ne_zero hvalid
  have hpos : 0 < m.toNat := Nat.pos_of_ne_zero fun h => hm (UInt32.toNat_inj.mp h)
  refine ⟨?_, ?_⟩
  · rintro δ ω parts c w s w₁ rfl hphase hstart answers
    obtain ⟨a, hbounded, hreplies, ⟨t, w₂, hsearch⟩, others, hothers, hrecorded⟩ :=
      open_attempts hphase hm hstart
    have hgiven := (Attempts.given_of_replies hreplies).2
    have hleast := hbounded.isLeast hgiven
    rw [Nat.sub_add_cancel hpos] at hleast
    have hwaited : a.waitedMs c.config.backoff 0 =
        ∑ j ∈ Finset.range (a.failures.length + 1 - 1), c.config.backoff.delay (UInt32.ofNat j) := by
      simp only [Attempts.waitedMs, UInt32.zero_add, Nat.add_sub_cancel]
    have hlast : answers (a.failures.length + 1 - 1) = a.last := by
      rw [Nat.add_sub_cancel]
      exact hgiven.last
    refine ⟨a.failures.length + 1, hleast, ⟨others, hothers, hreplies ▸ hrecorded⟩, ?_⟩
    rw [hlast, ← hwaited]
    cases hanswer : a.last with
    | ok ps => exact open_goesOn hphase hstart hsearch hanswer
    | error e =>
      obtain ⟨helapsed, hreported⟩ := open_reports hphase hstart hsearch hanswer
      refine ⟨helapsed, fun he => ?_, hreported⟩
      have hexhausted : a.failures.length = m.toNat - 1 := hbounded.exhausted e hanswer he
      omega
  · rintro ω client c w rfl hphase e he
    exact open_fails_exhausted hvalid hphase he

end Connector

end CheckpointedLog

namespace CheckpointedLog.Connector

open scoped Pattern

/-- A broker that fails twice is asked three times. One that fails three times is given up, although its
own failures are not of the kind that passes. -/
theorem open_bounds_attempts_third :
    let config : SourceConfig := { topics := .list ["t"] }
    let c : Connector BrokerDiscoverer := { config := config, subtask := .single }
    let parts : Components BrokerDiscoverer MemoryBroker :=
      ⟨MemoryBroker.client, BrokerDiscoverer.discoverer MemoryBroker.client⟩
    let b : MemoryBroker := { metadataFailures := [.timeout 5, .other "denied"] }
    config.validate = .ok () ∧
      (∃ others, NoDiscovery others ∧ (c.open parts.recorded (b, [])).world.2 = .started (.ok ()) ::
        ([.discovered (.error (.discovery "failed to list partitions: Broker request timed out after 5ms")),
          .discovered (.error (.discovery "failed to list partitions: denied")),
          .discovered (.ok [])] ++ others)) ∧
      (c.open parts b).elapsedMs = 100 + 200 ∧ (c.open parts b).result = .ok () ∧
      ∃ message, (c.open parts (b.failMetadata (.other "denied"))).result =
        .error (.discoveryExhausted 3 message) := by
  intro config c parts b
  have hvalid : config.validate = .ok () := eq_ok_of_toOption (by decide)
  obtain ⟨hall, hbroker⟩ := open_bounds_attempts hvalid
  let s : BrokerDiscoverer := { topics := config.topics, phase := .opened }
  obtain ⟨k, hleast, ⟨others, hothers, hledger⟩, hwaited, hresult⟩ := hall parts c b s b rfl rfl rfl
  have hfirst : parts.discoverer.answer s b 0 =
      .error (.discovery "failed to list partitions: Broker request timed out after 5ms") := rfl
  have hsecond : parts.discoverer.answer s b 1 =
      .error (.discovery "failed to list partitions: denied") := rfl
  have hthird : parts.discoverer.answer s b 2 = .ok [] := rfl
  have hk : k = 3 := by
    apply hleast.unique
    refine ⟨⟨by decide, .inl rfl⟩, fun n hn => ?_⟩
    obtain ⟨hpos, hm | hdecides⟩ := hn
    · exact hm.ge
    match n with
    | 1 => exact absurd (hfirst ▸ hdecides) Bool.noConfusion
    | 2 => exact absurd (hsecond ▸ hdecides) Bool.noConfusion
    | n + 3 => exact Nat.le_add_left 3 n
  subst hk
  refine ⟨hvalid, ⟨others, hothers, ?_⟩, ?_, ?_, ?_⟩
  · rw [hledger]
    rfl
  · rw [hwaited]
    decide +kernel
  · exact hresult.1
  · have hfails : (c.open parts (b.failMetadata (.other "denied"))).result.isOk = false := by
      decide +kernel
    cases hfailure : (c.open parts (b.failMetadata (.other "denied"))).result with
    | ok => exact absurd (hfailure ▸ hfails) Bool.noConfusion
    | error e =>
      obtain ⟨message, rfl⟩ := hbroker MemoryBroker.client c _ rfl rfl e hfailure
      exact ⟨message, rfl⟩

end CheckpointedLog.Connector
