import CheckpointedLog.Fetch.FetchLife
import CheckpointedLog.Proofs.Fetch.Consistency
import CheckpointedLog.Proofs.Fetch.Progress

/-!
What a fetcher asks its client, round by round. In a round the tracked partitions get positions one after
the other, and the client is asked for the position of a sentinel only; if one of them cannot get a
position, the round ends without a poll, otherwise each partition is polled once. An offset that the client
has found is not a sentinel any more, so that no later round or run asks for it again.
-/
namespace CheckpointedLog

variable {ω : Type}

theorem BrokerClient.calls_of_resolve {client : BrokerClient ω} {p : Partition} {o : Offset}
    {w w' : ω × List FetchCall} {r : Except SourceError Position}
    (h : client.tracing.resolve p o w = (r, w')) : w'.2 = w.2 ++ [.resolve p o r.toOption] := by
  obtain ⟨rfl, rfl⟩ := Prod.mk.inj h
  rfl

namespace FetchLoop

theorem calls_of_pollAll {client : BrokerClient ω} {timeoutMs waitMs : Nat} {positions : OffsetMap}
    {round : List Partition} {w w' : ω × List FetchCall} {outcomes : List Polled}
    (h : pollAll client.tracing timeoutMs positions round w = (outcomes, waitMs, w')) :
    w'.2 = w.2 ++ round.map fun p => .poll p ((positions.get? p).getD 0) := by
  rw [← show (pollAll client.tracing timeoutMs positions round w).2.2 = w' from congrArg (·.2.2) h]
  clear h
  induction round generalizing w with
  | nil => exact (List.append_nil w.2).symm
  | cons p round ih =>
    rw [List.map_cons, List.append_cons]
    exact ih (w := (client.tracing.poll p ((positions.get? p).getD 0) timeoutMs w).2)

/-- What a step asks the client: nothing, one sentinel, or all partitions of a round. -/
inductive Calls (l : FetchLoop) (f : Fetcher) (l' : FetchLoop) : List FetchCall → Prop where
  | silent : Calls l f l' []
  | resolve {round todo : List Partition} {p : Partition} {o : Offset} {answer : Option Position}
      (hstage : l.stage = .positioning round (p :: todo)) (ho : f.offsets.get? p = some o)
      (hs : o.isSentinel = true)
      (hanswer : ∀ n, answer = some n → l'.stage = .recording round todo p n) :
      Calls l f l' [.resolve p o answer]
  | poll {round : List Partition} (hstage : l.stage = .positioning round []) :
      Calls l f l' (round.map fun p => .poll p ((l.positions.get? p).getD 0))

theorem Step.calls {client : BrokerClient ω} {now : Nat} {l l' : FetchLoop} {f f' : Fetcher}
    {w w' : ω × List FetchCall} {x : Option Record} (h : l.Step client.tracing now f w l' f' w' x) :
    ∃ new, w'.2 = w.2 ++ new ∧ l.Calls f l' new := by
  cases h with
  | unresolved hstage _ ho hs hr =>
    exact ⟨_, BrokerClient.calls_of_resolve hr, .resolve hstage ho hs nofun⟩
  | resolved hstage _ ho hs hr =>
    refine ⟨_, BrokerClient.calls_of_resolve hr, .resolve hstage ho hs fun m hm => ?_⟩
    rw [Option.some.inj hm]
  | polled hstage hp => exact ⟨_, calls_of_pollAll hp, .poll hstage⟩
  | begun | known | untracked | positioned | overflowed | recorded | settled | delivered | skipped
  | dropped | emitted | ended => exact ⟨[], (List.append_nil w.2).symm, .silent⟩

end FetchLoop

/-- The partitions in `known` are those that have positions. -/
def OffsetMap.Covers (positions : OffsetMap) (known : List Partition) : Prop :=
  ∀ p, positions.contains p = true ↔ p ∈ known

theorem OffsetMap.covers_empty : OffsetMap.Covers .empty [] :=
  fun _ => ⟨fun h => absurd h Bool.false_ne_true, fun h => absurd h List.not_mem_nil⟩

theorem OffsetMap.Covers.insert {positions : OffsetMap} {known : List Partition}
    (h : OffsetMap.Covers positions known) (p : Partition) (n : Position) :
    OffsetMap.Covers (SortedMap.insert positions p n) (known ++ [p]) := by
  intro q
  rw [SortedMap.contains_insert, List.mem_append, List.mem_singleton, ← h q]
  by_cases hq : q = p
  · simp [hq]
  · simp [hq]

theorem OffsetMap.Covers.of_mem {positions : OffsetMap} {known : List Partition} {p : Partition}
    (h : OffsetMap.Covers positions known) (hp : p ∈ known) :
    OffsetMap.Covers positions (known ++ [p]) := by
  intro q
  rw [h q, List.mem_append, List.mem_singleton]
  refine ⟨Or.inl, fun hq => hq.elim id fun he => ?_⟩
  rw [he]
  exact hp

theorem OffsetMap.Covers.insert_of_contains {positions : OffsetMap} {known : List Partition}
    {p : Partition} (h : OffsetMap.Covers positions known) (hp : positions.contains p = true)
    (n : Position) : OffsetMap.Covers (SortedMap.insert positions p n) known := by
  intro q
  rw [SortedMap.contains_insert, ← h q]
  by_cases hq : q = p
  · simp [hq, hp]
  · simp [hq]

/-- A round in which the partitions `front` have been dealt with and `todo` are left. -/
structure FetchRound.UnderWay (known : List Partition) (r : FetchRound) (positions : OffsetMap)
    (offsets : OffsetState) (front todo : List Partition) : Prop where
  keys : r.offsets.keys = front ++ todo
  covers : OffsetMap.Covers positions (known ++ front)
  /-- Whatever happens meanwhile, a partition without a position has its offset from the beginning. -/
  unchanged : ∀ p ∈ todo, positions.contains p = false → offsets.get? p = r.offsets.get? p

/-- Between the polls of a round and the next round, the last round is whole, if there was one. -/
def FetchRound.Ended (positions : OffsetMap) (current : Option FetchRound)
    (known : List Partition) : Prop :=
  ∃ known', (current = none ∧ known' = known ∨ ∃ r, current = some r ∧ r.Completes known known') ∧
    OffsetMap.Covers positions known'

/-- How far the last round is at each stage, when `known` had positions before it. -/
def FetchStage.InRound (positions : OffsetMap) (offsets : OffsetState) (current : Option FetchRound)
    (known : List Partition) : FetchStage → Prop
  | .positioning round todo => ∃ r front, current = some r ∧ r.offsets.keys = round ∧
    r.UnderWay known positions offsets front todo ∧ FetchRound.Positions r.offsets known front r.calls
  | .recording round todo p _ => ∃ r front, current = some r ∧ r.offsets.keys = round ∧
    r.UnderWay known positions offsets front (p :: todo) ∧
      FetchRound.Positions r.offsets known (front ++ [p]) r.calls
  | _ => FetchRound.Ended positions current known

theorem FetchStage.Resting.inRound_iff {stage : FetchStage} (h : stage.Resting) {positions : OffsetMap}
    {offsets : OffsetState} {current : Option FetchRound} {known : List Partition} :
    stage.InRound positions offsets current known ↔ FetchRound.Ended positions current known := by
  cases stage with
  | idle | pausing | finished => exact Iff.rfl
  | _ => exact h.elim

theorem FetchStage.Resting.isPositioning {l : FetchLoop} (h : l.stage.Resting) :
    l.isPositioning = false := by
  unfold FetchLoop.isPositioning
  split
  next hs =>
    rw [hs] at h
    exact h.elim
  next hs =>
    rw [hs] at h
    exact h.elim
  next => rfl

namespace FetchRound.UnderWay

variable {known front todo : List Partition} {r : FetchRound} {positions : OffsetMap}
  {offsets : OffsetState} {p : Partition}

/-- The next partition is tracked, and it was not dealt with before. -/
theorem head (u : r.UnderWay known positions offsets front (p :: todo))
    (hp : positions.contains p = false) : p ∉ known ∧ offsets.get? p = r.offsets.get? p ∧
      ∃ o, r.offsets.get? p = some o := by
  refine ⟨fun hknown => ?_, u.unchanged p (List.mem_cons_self ..) hp, ?_⟩
  · rw [(u.covers p).mpr (List.mem_append_left front hknown)] at hp
    cases hp
  · apply SortedMap.contains_eq_true_iff.mp
    rw [← SortedMap.mem_keys_iff, u.keys]
    exact List.mem_append_right front (List.mem_cons_self ..)

theorem mem_known (u : r.UnderWay known positions offsets front (p :: todo))
    (hp : positions.contains p = true) : p ∈ known := by
  have hnodup : (front ++ p :: todo).Nodup := u.keys ▸ SortedMap.nodup_keys r.offsets
  -- It comes after the partitions that were dealt with in this round.
  refine (List.mem_append.mp ((u.covers p).mp hp)).resolve_right fun hfront => ?_
  exact (List.nodup_append.mp hnodup).2.2 p hfront p (List.mem_cons_self ..) rfl

/-- The next partition is passed, which has a position by now. -/
theorem pass (u : r.UnderWay known positions offsets front (p :: todo)) {positions' : OffsetMap}
    {offsets' : OffsetState} (hcovers : OffsetMap.Covers positions' (known ++ (front ++ [p])))
    (hoffsets : ∀ q, q ≠ p → offsets'.get? q = offsets.get? q) :
    r.UnderWay known positions' offsets' (front ++ [p]) todo := by
  refine ⟨?_, hcovers, fun q hq hunknown => ?_⟩
  · rw [u.keys, List.append_cons]
  -- A partition that has no position now is not the one that is passed, and it had none before.
  · have hunknown' : q ∉ known ++ (front ++ [p]) := by
      rw [← hcovers q, hunknown]
      exact Bool.false_ne_true
    rw [← List.append_assoc, List.mem_append, List.mem_singleton, not_or] at hunknown'
    obtain ⟨hbefore, hqp⟩ := hunknown'
    rw [← u.covers q, Bool.not_eq_true] at hbefore
    exact (hoffsets q hqp).trans (u.unchanged q (List.mem_cons_of_mem p hq) hbefore)

/-- The next partition is passed, which gets a position. -/
theorem pass_insert (u : r.UnderWay known positions offsets front (p :: todo)) (n : Position)
    {offsets' : OffsetState} (hoffsets : ∀ q, q ≠ p → offsets'.get? q = offsets.get? q) :
    r.UnderWay known (SortedMap.insert positions p n) offsets' (front ++ [p]) todo := by
  have hcovers := u.covers.insert p n
  rw [List.append_assoc] at hcovers
  exact u.pass hcovers hoffsets

end FetchRound.UnderWay

/-- A round does not notice what becomes of partitions that were not tracked at its beginning. -/
theorem FetchStage.InRound.of_kept {stage : FetchStage} {positions : OffsetMap}
    {offsets offsets' : OffsetState} {current : Option FetchRound} {known : List Partition}
    (h : stage.InRound positions offsets current known)
    (hkept : ∀ p o, offsets.get? p = some o → offsets'.get? p = some o) :
    stage.InRound positions offsets' current known := by
  have unchanged {r : FetchRound} {front todo : List Partition}
      (u : r.UnderWay known positions offsets front todo) :
      r.UnderWay known positions offsets' front todo := by
    refine ⟨u.keys, u.covers, fun p hp hunknown => ?_⟩
    have hsame := u.unchanged p hp hunknown
    have htracked : p ∈ r.offsets.keys := u.keys ▸ List.mem_append_right front hp
    obtain ⟨o, ho⟩ := SortedMap.contains_eq_true_iff.mp (SortedMap.mem_keys_iff.mp htracked)
    rw [ho] at hsame ⊢
    exact hkept p o hsame
  cases stage with
  | positioning | recording =>
    obtain ⟨r, front, hr, hkeys, u, hpositions⟩ := h
    exact ⟨r, front, hr, hkeys, unchanged u, hpositions⟩
  | idle | awaiting | delivering | pausing | finished => exact h

theorem FetchRound.map_extend_nil (current : Option FetchRound) :
    current.map (·.extend []) = current := by
  cases current with
  | none => rfl
  | some r => simp [extend]

namespace FetchLoop

variable {client : BrokerClient ω} {now : Nat} {l l' : FetchLoop} {f f' : Fetcher}
  {w w' : ω × List FetchCall} {x : Option Record} {known : List Partition}
  {current : Option FetchRound}

/-- A round begins with all tracked partitions, or there are none. -/
theorem inRound_beginRound (h : OffsetMap.Covers l.positions known) (f : Fetcher) (now : Nat)
    (hlive : f.isCancelled = false) :
    (l.beginRound f now).stage.InRound l.positions f.offsets (some ⟨f.offsets, []⟩) known := by
  unfold beginRound
  rw [hlive, if_neg Bool.false_ne_true]
  cases hkeys : f.offsets.keys with
  | nil =>
    -- There is nobody to poll, and the round is whole at once.
    have hpositions : FetchRound.Positions f.offsets known f.offsets.keys [] := by
      rw [hkeys]
      exact .nil
    have hround := FetchRound.Completes.polled (fun _ => 0) hpositions
    rw [hkeys] at hround
    exact ⟨known ++ [], Or.inr ⟨_, rfl, hround⟩, (List.append_nil known).symm ▸ h⟩
  | cons p round =>
    refine ⟨_, [], rfl, hkeys, ⟨hkeys, ?_, fun _ _ _ => rfl⟩, .nil⟩
    rw [List.append_nil]
    exact h

theorem isCancelled_of_beginsRound (hs : l.stage = .idle ∨ ∃ wake, l.stage = .pausing wake)
    (h : l.beginsRound f = false) : f.isCancelled = true := by
  unfold beginsRound at h
  rcases hs with hs | ⟨wake, hs⟩
  · simpa [hs] using h
  · simpa [hs] using h

/-- A round that cannot give a position to its next partition is whole. -/
theorem inRound_failRound {r : FetchRound} {front todo : List Partition} {offsets : OffsetState}
    (u : r.UnderWay known l.positions offsets front todo) {calls : List FetchCall}
    (hwhole : (r.extend calls).Completes known (known ++ front)) (now : Nat) (e : SourceError) :
    (l.failRound f now e).stage.InRound (l.failRound f now e).positions f.offsets
      (some (r.extend calls)) known := by
  refine (failRound_resting ..).inRound_iff.mpr ⟨known ++ front, Or.inr ⟨_, rfl, hwhole⟩, ?_⟩
  rw [failRound_positions]
  exact u.covers

/-- A whole round stays whole while its outcomes are taken. -/
theorem inRound_of_delivering {positions : OffsetMap} {offsets : OffsetState} {stage : FetchStage}
    {outcomes : List Polled} (hended : FetchRound.Ended positions current known)
    (h : stage.Resting ∨ ∃ o records rest failure, o ∈ outcomes ∧ rest ⊆ outcomes ∧
      o.records = .ok records ∧ stage = .delivering o.partition records rest failure) :
    stage.InRound positions offsets current known := by
  rcases h with h | ⟨o, records, rest, failure, -, -, -, rfl⟩
  · exact h.inRound_iff.mpr hended
  · exact hended

theorem Step.inRound (hstep : l.Step client.tracing now f w l' f' w' x)
    (h : l.stage.InRound l.positions f.offsets current known)
    (hcovered : l.stage.Covered l.positions f.offsets) (hround : l.beginsRound f = false)
    {new : List FetchCall} (hnew : w'.2 = w.2 ++ new) :
    l'.stage.InRound l'.positions f'.offsets (current.map (·.extend new)) known := by
  have quiet (hw : w'.2 = w.2) : current.map (·.extend new) = current := by
    rw [hw, List.self_eq_append_right] at hnew
    rw [hnew, FetchRound.map_extend_nil]
  -- The first cases are steps within a round: a partition is passed, or the round ends with it. After the
  -- polls the round stays whole.
  cases hstep with
  | begun hs =>
    rw [quiet rfl, beginRound, if_pos (isCancelled_of_beginsRound hs hround)]
    rcases hs with hs | ⟨wake, hs⟩
    · rw [hs] at h
      exact h
    · rw [hs] at h
      exact h
  | @known round p todo hs hp =>
    rw [hs] at h
    rw [quiet rfl]
    obtain ⟨r, front, hr, hkeys, u, hpositions⟩ := h
    have hknown := u.mem_known hp
    have hcovers := u.covers.of_mem (List.mem_append_left front hknown)
    rw [List.append_assoc] at hcovers
    exact ⟨r, front ++ [p], hr, hkeys, u.pass hcovers fun _ _ => rfl, .known hpositions hknown⟩
  | untracked hs hp ho =>
    rw [hs] at h
    obtain ⟨r, front, hr, hkeys, u, hpositions⟩ := h
    -- Nobody takes away a partition that was tracked when the round began.
    obtain ⟨-, hsame, o, htracked⟩ := u.head hp
    cases ho.symm.trans (hsame.trans htracked)
  | @positioned round p todo last n hs hp ho hn =>
    rw [hs] at h
    rw [quiet rfl]
    obtain ⟨r, front, hr, hkeys, u, hpositions⟩ := h
    obtain ⟨hunknown, hsame, -⟩ := u.head hp
    have hlast : last ≠ Int64.maxValue := by
      rintro rfl
      cases hn
    exact ⟨r, front ++ [p], hr, hkeys, u.pass_insert n fun _ _ => rfl,
      .concrete hpositions hunknown (hsame.symm.trans ho) hlast⟩
  | @overflowed round p todo last hs hp ho hn =>
    rw [hs] at h
    obtain ⟨r, front, rfl, hkeys, u, hpositions⟩ := h
    obtain ⟨hunknown, hsame, -⟩ := u.head hp
    obtain rfl := List.self_eq_append_right.mp hnew
    obtain rfl := Position.after?_eq_none_iff.mp hn
    have hcalls : r.extend [] = r := by simp [FetchRound.extend]
    have hwhole : (r.extend []).Completes known (known ++ front) :=
      hcalls.symm ▸ .overflowed u.keys hpositions hunknown (hsame.symm.trans ho)
    exact inRound_failRound u hwhole now _
  | @unresolved round p todo o e _ hs hp ho hsentinel hanswer =>
    rw [hs] at h
    obtain ⟨r, front, rfl, hkeys, u, hpositions⟩ := h
    obtain ⟨hunknown, hsame, -⟩ := u.head hp
    rw [BrokerClient.calls_of_resolve hanswer] at hnew
    obtain rfl := List.append_cancel_left hnew
    have hwhole : (r.extend [.resolve p o none]).Completes known (known ++ front) :=
      .unresolved u.keys hpositions hunknown (hsame.symm.trans ho) hsentinel
    exact inRound_failRound u hwhole now _
  | @resolved round p todo o n _ hs hp ho hsentinel hanswer =>
    rw [hs] at h
    obtain ⟨r, front, rfl, hkeys, u, hpositions⟩ := h
    obtain ⟨hunknown, hsame, -⟩ := u.head hp
    rw [BrokerClient.calls_of_resolve hanswer] at hnew
    obtain rfl := List.append_cancel_left hnew
    exact ⟨_, front, rfl, hkeys, ⟨u.keys, u.covers, u.unchanged⟩,
      .sentinel hpositions hunknown (hsame.symm.trans ho) hsentinel⟩
  | @recorded round todo p n hs =>
    rw [hs] at h
    rw [quiet rfl]
    obtain ⟨r, front, hr, hkeys, u, hpositions⟩ := h
    exact ⟨r, front ++ [p], hr, hkeys,
      u.pass_insert n fun q hq => get?_recordPosition_of_ne f.offsets n hq, hpositions⟩
  | @polled round outcomes waitMs _ hs hp =>
    rw [hs] at h
    obtain ⟨r, front, rfl, rfl, u, hpositions⟩ := h
    rw [calls_of_pollAll hp] at hnew
    obtain rfl := List.append_cancel_left hnew
    -- Nothing is left to do, so that all partitions of the round were dealt with.
    obtain rfl : r.offsets.keys = front := u.keys.trans (List.append_nil front)
    have hwhole : FetchRound.Completes known _ (known ++ r.offsets.keys) :=
      .polled (fun p => (l.positions.get? p).getD 0) hpositions
    exact ⟨_, Or.inr ⟨_, rfl, hwhole⟩, u.covers⟩
  | @settled outcomes wake hs =>
    rw [hs] at h
    rw [quiet rfl, settle_positions]
    exact inRound_of_delivering h (settle_stage ..)
  | @delivered p rest failure hs =>
    rw [hs] at h
    rw [quiet rfl, settleRest_positions]
    exact inRound_of_delivering h (settleRest_stage ..)
  | skipped hs | dropped hs =>
    rw [hs] at h
    rw [quiet rfl]
    exact h
  | @emitted p r _ _ _ hs =>
    rw [hs] at h hcovered
    rw [quiet rfl]
    obtain ⟨known', hlast, hcovers⟩ := h
    exact ⟨known', hlast, hcovers.insert_of_contains hcovered.1 _⟩
  | ended hs =>
    rw [quiet rfl]
    exact h

theorem Calls.eq_nil {new : List FetchCall} (h : l.Calls f l' new)
    (hround : l.stage.InRound l.positions f.offsets none known) : new = [] := by
  cases h with
  | silent => rfl
  | resolve hstage =>
    rw [hstage] at hround
    obtain ⟨r, front, hnone, -⟩ := hround
    cases hnone
  | poll hstage =>
    rw [hstage] at hround
    obtain ⟨r, front, hnone, -⟩ := hround
    cases hnone

/-- A request is for the sentinel of the partition that is to be positioned, and what was found is to be
recorded. -/
theorem Calls.of_mem {new : List FetchCall} (h : l.Calls f l' new) {p : Partition} {o : Offset}
    {answer : Option Position} (hmem : .resolve p o answer ∈ new) :
    o.isSentinel = true ∧ f.offsets.get? p = some o ∧
      ∃ round todo, l.stage = .positioning round (p :: todo) ∧
        ∀ n, answer = some n → l'.stage = .recording round todo p n := by
  cases h with
  | silent => cases hmem
  | resolve hstage ho hs hanswer =>
    obtain ⟨rfl, rfl, rfl⟩ := FetchCall.resolve.inj (List.mem_singleton.mp hmem)
    exact ⟨hs, ho, _, _, hstage, hanswer⟩
  | poll =>
    obtain ⟨q, -, hq⟩ := List.mem_map.mp hmem
    cases hq

theorem step_of_beginsRound (client : BrokerClient ω) (now : Nat) (w : ω)
    (h : l.beginsRound f = true) : l.stage.Resting ∧ f.isCancelled = false ∧
      l.step client now f w = (l.beginRound f now, f, w, none) := by
  unfold beginsRound at h
  unfold step
  split at h
  next hs =>
    rw [hs]
    exact ⟨trivial, Bool.not_eq_true' _ |>.mp h, rfl⟩
  next wake hs =>
    rw [hs]
    exact ⟨trivial, Bool.not_eq_true' _ |>.mp h, rfl⟩
  next => cases h

/-- What was found for a sentinel is recorded by the next step of the loop. -/
theorem Step.records {client : BrokerClient ω} {w w' : ω} (h : l.Step client now f w l' f' w' x)
    {round todo : List Partition} {p : Partition} {n : Position}
    (hs : l.stage = .recording round todo p n) {o : Offset} (ho : f.offsets.get? p = some o)
    (hsentinel : o.isSentinel = true) :
    f'.offsets.get? p = some (.concrete (Position.beforeCapped n)) := by
  cases h with
  | recorded h' =>
    obtain ⟨-, -, rfl, rfl⟩ := FetchStage.recording.inj (hs.symm.trans h')
    exact get?_recordPosition_self ho hsentinel n
  | begun h' => rcases h' with h' | ⟨wake, h'⟩ <;> cases hs.symm.trans h'
  | known h' | untracked h' | positioned h' | overflowed h' | unresolved h' | resolved h' | polled h'
  | settled h' | delivered h' | skipped h' | dropped h' | emitted h' | ended h' =>
    cases hs.symm.trans h'

end FetchLoop

/-- The partition has no sentinel, or is about to lose it. -/
def FetchTrace.Settled (t : FetchTrace ω) (p : Partition) : Prop :=
  (∃ last, t.run.fetcher.offsets.get? p = some (.concrete last)) ∨
    ∃ round todo n, t.run.loop.stage = .recording round todo p n

/-- What happens to fetching takes no tracked partition away and brings no sentinel back. -/
theorem FetchTrace.precedes_perform (client : BrokerClient ω) (t : FetchTrace ω) (a : FetchAction ω) :
    OffsetState.Precedes t.run.fetcher.offsets (t.perform client a).run.fetcher.offsets := by
  cases a with
  | step now =>
    exact (FetchLoop.step_cases client now t.run.loop t.run.fetcher t.run.world).precedes
  | add o ps => exact t.run.fetcher.offsets.precedes_addPartitions o ps
  | copy | cancel | world => exact .refl _

theorem FetchTrace.Settled.perform {s : OffsetState} {t : FetchTrace ω} {p : Partition}
    (h : t.Settled p) (c : t.Consistent s) (client : BrokerClient ω) (a : FetchAction ω) :
    (t.perform client a).Settled p := by
  rcases h with ⟨last, hlast⟩ | ⟨round, todo, n, hstage⟩
  · obtain ⟨o, ho, next, rfl, -⟩ := t.precedes_perform client a p _ hlast
    exact Or.inl ⟨next, ho⟩
  · cases a with
    | step now =>
      have hcovered := c.covered
      rw [hstage] at hcovered
      obtain ⟨-, o, ho, hsentinel⟩ := hcovered
      have hstep := FetchLoop.step_cases client now t.run.loop t.run.fetcher t.run.world
      exact Or.inl ⟨_, hstep.records hstage ho hsentinel⟩
    | copy | add | cancel | world => exact Or.inr ⟨round, todo, n, hstage⟩

/-- The later call does not ask for a sentinel that the earlier one has found. -/
def FetchCall.Allows (earlier later : FetchCall) : Prop :=
  ∀ p o n, earlier = .resolve p o (some n) → ∀ o' answer, later ≠ .resolve p o' answer

theorem FetchLoop.Calls.not_mem {t : FetchTrace ω} {l' : FetchLoop} {new : List FetchCall}
    (h : t.run.loop.Calls t.run.fetcher l' new) {p : Partition} (hp : t.Settled p) (o : Offset)
    (answer : Option Position) : .resolve p o answer ∉ new := by
  intro hmem
  obtain ⟨hs, ho, round, todo, hstage, -⟩ := h.of_mem hmem
  rcases hp with ⟨last, hlast⟩ | ⟨round', todo', n, hrecording⟩
  · obtain rfl := Option.some.inj (ho.symm.trans hlast)
    cases hs
  · cases hstage.symm.trans hrecording

theorem FetchLoop.Calls.pairwise {l l' : FetchLoop} {f : Fetcher} {new : List FetchCall}
    (h : l.Calls f l' new) : new.Pairwise FetchCall.Allows := by
  cases h with
  | silent => exact .nil
  | resolve => exact List.pairwise_singleton _ _
  | poll =>
    refine List.pairwise_map.mpr (List.pairwise_of_forall fun a b p o n he => ?_)
    cases he

namespace FetchTrace

variable {t : FetchTrace (ω × List FetchCall)} {s : OffsetState}

theorem exists_calls (t : FetchTrace (ω × List FetchCall)) (client : BrokerClient ω)
    (a : FetchAction ω) :
    let u := t.perform client.tracing (a.beside t.run.world.2)
    ∃ new, u.run.world.2 = t.run.world.2 ++ new ∧ t.run.loop.Calls t.run.fetcher u.run.loop new := by
  cases a with
  | step now =>
    exact (FetchLoop.step_cases client.tracing now t.run.loop t.run.fetcher t.run.world).calls
  | copy | add | cancel | world => exact ⟨[], (List.append_nil t.run.world.2).symm, .silent⟩

/-- Only sentinels were asked for, and none of them again after it was found. -/
structure AsksOnce (t : FetchTrace (ω × List FetchCall)) : Prop where
  sentinels : ∀ p o answer, .resolve p o answer ∈ t.run.world.2 → o.isSentinel = true
  once : t.run.world.2.Pairwise FetchCall.Allows
  settled : ∀ p o n, .resolve p o (some n) ∈ t.run.world.2 → t.Settled p

theorem AsksOnce.begin (f : Fetcher) (w : ω) : (begin f (w, [])).AsksOnce where
  sentinels := nofun
  once := .nil
  settled := nofun

theorem AsksOnce.perform (h : t.AsksOnce) (c : t.Consistent s) (client : BrokerClient ω)
    (a : FetchAction ω) : (t.perform client.tracing (a.beside t.run.world.2)).AsksOnce := by
  obtain ⟨new, hnew, hcalls⟩ := t.exists_calls client a
  constructor
  case sentinels =>
    intro p o answer hmem
    rw [hnew, List.mem_append] at hmem
    rcases hmem with hmem | hmem
    · exact h.sentinels p o answer hmem
    · exact (hcalls.of_mem hmem).1
  case once =>
    rw [hnew]
    -- What was found is settled by now, so that nothing new asks for it.
    refine List.pairwise_append.mpr ⟨h.once, hcalls.pairwise, ?_⟩
    rintro _ hmem later hlater p o n rfl o' answer rfl
    exact hcalls.not_mem (h.settled p o n hmem) o' answer hlater
  case settled =>
    intro p o n hmem
    rw [hnew, List.mem_append] at hmem
    rcases hmem with hmem | hmem
    · exact (h.settled p o n hmem).perform c client.tracing (a.beside t.run.world.2)
    · obtain ⟨-, -, round, todo, -, hrecording⟩ := hcalls.of_mem hmem
      exact Or.inr ⟨round, todo, n, hrecording n rfl⟩

theorem AsksOnce.again (h : t.AsksOnce) (hresting : t.run.loop.stage.Resting) :
    (FetchTrace.begin t.run.fetcher t.run.world).AsksOnce where
  sentinels := h.sentinels
  once := h.once
  settled := by
    intro p o n hmem
    rcases h.settled p o n hmem with hlast | ⟨round, todo, m, hrecording⟩
    · exact Or.inl hlast
    · rw [hrecording] at hresting
      exact hresting.elim

end FetchTrace

namespace FetchLife

structure Kept (t : FetchLife ω) : Prop where
  consistent : ∃ s, t.trace.Consistent s
  log : t.calls = t.runs.flatten.flatMap (·.calls)
  past : ∀ rounds ∈ t.past, ∃ known, FetchRound.Sequence rounds known
  present : ∃ known, FetchRound.Sequence t.rounds known ∧
    t.trace.run.loop.stage.InRound t.trace.run.loop.positions t.trace.run.fetcher.offsets t.current
      known
  asks : t.trace.AsksOnce

namespace Kept

variable {t : FetchLife ω}

theorem begin (f : Fetcher) (w : ω) : (begin f w).Kept where
  consistent := ⟨f.offsets, .begin f (w, [])⟩
  log := rfl
  past := nofun
  present := ⟨[], .nil, [], Or.inl ⟨rfl, rfl⟩, OffsetMap.covers_empty⟩
  asks := .begin f w

/-- Unless partitions are being positioned, the last round is whole. -/
theorem exists_sequence (k : t.Kept) (h : t.trace.run.loop.isPositioning = false) :
    ∃ known, FetchRound.Sequence (t.rounds ++ t.current.toList) known ∧
      OffsetMap.Covers t.trace.run.loop.positions known := by
  obtain ⟨known, hrounds, hround⟩ := k.present
  have hended : FetchRound.Ended t.trace.run.loop.positions t.current known := by
    unfold FetchLoop.isPositioning at h
    cases hs : t.trace.run.loop.stage with
    | positioning | recording =>
      rw [hs] at h
      cases h
    | idle | awaiting | delivering | pausing | finished =>
      rw [hs] at hround
      exact hround
  obtain ⟨known', hlast, hcovers⟩ := hended
  refine ⟨known', ?_, hcovers⟩
  rcases hlast with ⟨hnone, rfl⟩ | ⟨r, hr, hwhole⟩
  · rw [hnone, Option.toList_none, List.append_nil]
    exact hrounds
  · rw [hr, Option.toList_some]
    exact hrounds.snoc hwhole

/-- While partitions are being positioned, the last round is under way. -/
theorem exists_proceeds (k : t.Kept) (h : t.trace.run.loop.isPositioning = true) :
    ∃ r known, t.current = some r ∧ FetchRound.Sequence t.rounds known ∧ r.Proceeds known := by
  obtain ⟨known, hrounds, hround⟩ := k.present
  unfold FetchLoop.isPositioning at h
  split at h
  next round todo hs =>
    rw [hs] at hround
    obtain ⟨r, front, hr, -, u, hpositions⟩ := hround
    exact ⟨r, known, hr, hrounds, front, todo, u.keys, hpositions⟩
  next round todo p n hs =>
    rw [hs] at hround
    obtain ⟨r, front, hr, -, u, hpositions⟩ := hround
    exact ⟨r, known, hr, hrounds, front ++ [p], todo, u.keys.trans (List.append_cons ..), hpositions⟩
  next => cases h

theorem begun (k : t.Kept) (client : BrokerClient ω) {a : FetchAction ω}
    (ha : t.beginsRound a = true) :
    let trace := t.trace.perform client.tracing (a.beside t.calls)
    trace.run.world.2 = t.calls ∧ ∃ known, FetchRound.Sequence (t.rounds ++ t.current.toList) known ∧
      trace.run.loop.stage.InRound trace.run.loop.positions trace.run.fetcher.offsets
        (some ⟨t.trace.run.fetcher.offsets, []⟩) known := by
  cases a with
  | step now =>
    obtain ⟨hresting, hlive, hstep⟩ :=
      FetchLoop.step_of_beginsRound client.tracing now t.trace.run.world ha
    intro trace
    have htrace : trace.run = ⟨t.trace.run.loop.beginRound t.trace.run.fetcher now,
        t.trace.run.fetcher, t.trace.run.world⟩ := by
      simp only [trace, FetchAction.beside, FetchTrace.perform, FetchRun.perform, hstep]
    obtain ⟨known, hrounds, hcovers⟩ := k.exists_sequence hresting.isPositioning
    rw [htrace]
    refine ⟨rfl, known, hrounds, ?_⟩
    rw [FetchLoop.beginRound_positions]
    exact FetchLoop.inRound_beginRound hcovers t.trace.run.fetcher now hlive
  | copy | add | cancel | world => cases ha

theorem continued (k : t.Kept) (client : BrokerClient ω) {a : FetchAction ω}
    (ha : t.beginsRound a = false) {new : List FetchCall}
    (hnew : (t.trace.perform client.tracing (a.beside t.calls)).run.world.2 = t.calls ++ new) :
    let trace := t.trace.perform client.tracing (a.beside t.calls)
    ∃ known, FetchRound.Sequence t.rounds known ∧
      trace.run.loop.stage.InRound trace.run.loop.positions trace.run.fetcher.offsets
        (t.current.map (·.extend new)) known := by
  obtain ⟨s, c⟩ := k.consistent
  obtain ⟨known, hrounds, hround⟩ := k.present
  intro trace
  refine ⟨known, hrounds, ?_⟩
  -- An action that asks nothing leaves the round as it is.
  have quiet (h : trace.run.world.2 = t.calls) : t.current.map (·.extend new) = t.current := by
    have hnil := h.symm.trans hnew
    rw [List.self_eq_append_right] at hnil
    rw [hnil, FetchRound.map_extend_nil]
  cases a with
  | step now =>
    have hstep := FetchLoop.step_cases client.tracing now t.trace.run.loop t.trace.run.fetcher
      t.trace.run.world
    exact hstep.inRound hround c.covered ha hnew
  | add o ps =>
    rw [quiet rfl]
    refine hround.of_kept fun p x hx => ?_
    change (t.trace.run.fetcher.offsets.addPartitions o ps).2.get? p = some x
    rw [OffsetState.get?_addPartitions, hx, Option.some_or]
  | copy | cancel | world =>
    rw [quiet rfl]
    exact hround

theorem act (k : t.Kept) (client : BrokerClient ω) (a : FetchAction ω) :
    (t.perform client (.act a)).Kept := by
  obtain ⟨new, hnew, hcalls⟩ := t.trace.exists_calls client a
  have hdrop : (t.trace.perform client.tracing (a.beside t.calls)).run.world.2.drop t.calls.length =
      new := by
    refine (congrArg (List.drop t.calls.length) hnew).trans ?_
    exact List.drop_left
  obtain ⟨s, c⟩ := k.consistent
  have c' := c.perform client.tracing (a.beside t.calls)
  have hasks := k.asks.perform c client a
  simp only [FetchLife.perform, hdrop]
  split
  next ha =>
    obtain ⟨hsame, known, hrounds, hround⟩ := k.begun client ha
    have hnil := hsame.symm.trans hnew
    rw [calls, List.self_eq_append_right] at hnil
    subst hnil
    constructor
    case consistent => exact ⟨s, c'⟩
    case log =>
      refine hsame.trans (k.log.trans ?_)
      simp [runs]
    case past => exact k.past
    case present => exact ⟨known, hrounds, hround⟩
    case asks => exact hasks
  next ha =>
    obtain ⟨known, hrounds, hround⟩ := k.continued client (Bool.eq_false_iff.mpr ha) hnew
    constructor
    case consistent => exact ⟨s, c'⟩
    case log =>
      refine hnew.trans ?_
      rw [← calls, k.log]
      cases hcurrent : t.current with
      | none =>
        -- Before the first round there is nobody who could have asked.
        obtain ⟨known, -, hround⟩ := k.present
        rw [hcurrent] at hround
        simp [runs, hcurrent, hcalls.eq_nil hround]
      | some r => simp [runs, hcurrent, FetchRound.extend]
    case past => exact k.past
    case present => exact ⟨known, hrounds, hround⟩
    case asks => exact hasks

theorem again (k : t.Kept) (client : BrokerClient ω) : (t.perform client .again).Kept := by
  simp only [FetchLife.perform]
  split
  next => exact k
  next result hresult =>
    have hresting : t.trace.run.loop.stage.Resting := by
      unfold FetchLoop.result? at hresult
      split at hresult
      next hs =>
        rw [hs]
        trivial
      next => cases hresult
    obtain ⟨known, hrounds, -⟩ := k.exists_sequence hresting.isPositioning
    constructor
    case consistent => exact ⟨_, .begin t.trace.run.fetcher t.trace.run.world⟩
    case log =>
      refine k.log.trans ?_
      simp [runs]
    case past =>
      intro rounds hmem
      rcases List.mem_append.mp hmem with hmem | hmem
      · exact k.past rounds hmem
      · rw [List.mem_singleton.mp hmem]
        exact ⟨known, hrounds⟩
    case present => exact ⟨[], .nil, [], Or.inl ⟨rfl, rfl⟩, OffsetMap.covers_empty⟩
    case asks => exact k.asks.again hresting

theorem performAll (k : t.Kept) (client : BrokerClient ω) (actions : List (FetchLifeAction ω)) :
    (t.performAll client actions).Kept := by
  induction actions generalizing t with
  | nil => exact k
  | cons a actions ih =>
    cases a with
    | act a => exact ih (k.act client a)
    | again => exact ih (k.again client)

end Kept

/-- The offsets with which the rounds began, in order. -/
def beginnings (t : FetchLife ω) : List OffsetState := t.runs.flatten.map (·.offsets)

theorem beginnings_perform (client : BrokerClient ω) (t : FetchLife ω) (a : FetchLifeAction ω) :
    OffsetState.Precedes t.trace.run.fetcher.offsets (t.perform client a).trace.run.fetcher.offsets ∧
      ∃ later, (t.perform client a).beginnings = t.beginnings ++ later ∧
        ∀ s ∈ later, s = t.trace.run.fetcher.offsets := by
  cases a with
  | act a =>
    have hprecedes := t.trace.precedes_perform client.tracing (a.beside t.calls)
    simp only [perform]
    split
    next =>
      refine ⟨hprecedes, [t.trace.run.fetcher.offsets], ?_, fun s hs => List.mem_singleton.mp hs⟩
      simp [beginnings, runs]
    next =>
      refine ⟨hprecedes, [], ?_, nofun⟩
      cases hcurrent : t.current with
      | none => simp [beginnings, runs, hcurrent]
      | some r => simp [beginnings, runs, hcurrent, FetchRound.extend]
  | again =>
    simp only [perform]
    split
    next => exact ⟨.refl _, [], (List.append_nil _).symm, nofun⟩
    next =>
      refine ⟨.refl _, [], ?_, nofun⟩
      simp [beginnings, runs]

/-- Every partition that is tracked belongs to all rounds that begin from now on. -/
theorem exists_beginnings (client : BrokerClient ω) (t : FetchLife ω)
    (actions : List (FetchLifeAction ω)) :
    ∃ later, (t.performAll client actions).beginnings = t.beginnings ++ later ∧
      ∀ s ∈ later, OffsetState.Precedes t.trace.run.fetcher.offsets s := by
  induction actions generalizing t with
  | nil => exact ⟨[], (List.append_nil _).symm, nofun⟩
  | cons a actions ih =>
    obtain ⟨hprecedes, next, hnext, hsame⟩ := t.beginnings_perform client a
    obtain ⟨later, hlater, hkept⟩ := ih (t.perform client a)
    refine ⟨next ++ later, ?_, fun s hs => ?_⟩
    · rw [← List.append_assoc, ← hnext]
      exact hlater
    · rcases List.mem_append.mp hs with hs | hs
      · rw [hsame s hs]
        exact .refl _
      · exact hprecedes.trans (hkept s hs)

structure Disciplined (client : BrokerClient ω) (t : FetchLife ω) : Prop where
  log : t.calls = t.runs.flatten.flatMap (·.calls)
  past : ∀ rounds ∈ t.past, ∃ known, FetchRound.Sequence rounds known
  /-- In the last run, all rounds are whole, but the last one may be under way. -/
  whole : t.trace.run.loop.isPositioning = false →
    ∃ known, FetchRound.Sequence (t.rounds ++ t.current.toList) known
  proceeding : t.trace.run.loop.isPositioning = true →
    ∃ r known, t.current = some r ∧ FetchRound.Sequence t.rounds known ∧ r.Proceeds known
  sentinels : ∀ p o answer, .resolve p o answer ∈ t.calls → o.isSentinel = true
  /-- A partition of which the sentinel was found is never asked for again, in no run. -/
  once : ∀ before p o n after, t.calls = before ++ .resolve p o (some n) :: after →
    ∀ o' answer, .resolve p o' answer ∉ after
  /-- Whatever happens from now on, the partitions that are tracked belong to all rounds to come. -/
  added : ∀ actions, ∃ later, (t.performAll client actions).beginnings = t.beginnings ++ later ∧
    ∀ s ∈ later, ∀ p, t.trace.run.fetcher.offsets.contains p = true → s.contains p = true

/-- Whatever a client answers, and whatever else happens to a fetcher and to its world: the calls of each
run split into rounds over the partitions that are tracked when the round begins. A round asks in order for
the sentinels of the partitions that have no position yet, and ends as soon as one of them is not found;
otherwise it polls each partition once. -/
theorem calls_come_in_rounds (client : BrokerClient ω) (f : Fetcher) (w : ω)
    (actions : List (FetchLifeAction ω)) :
    ((begin f w).performAll client actions).Disciplined client := by
  have k := (Kept.begin f w).performAll client actions
  generalize (begin f w).performAll client actions = t at k
  constructor
  case log => exact k.log
  case past => exact k.past
  case whole =>
    intro h
    obtain ⟨known, hrounds, -⟩ := k.exists_sequence h
    exact ⟨known, hrounds⟩
  case proceeding => exact k.exists_proceeds
  case sentinels => exact k.asks.sentinels
  case once =>
    intro before p o n after hsplit o' answer hmem
    have honce : t.calls.Pairwise FetchCall.Allows := k.asks.once
    rw [hsplit, List.pairwise_append] at honce
    exact List.rel_of_pairwise_cons honce.2.1 hmem p o n rfl o' answer rfl
  case added =>
    intro later
    obtain ⟨next, hnext, hkept⟩ := t.exists_beginnings client later
    exact ⟨next, hnext, fun s hs p hp => (hkept s hs).contains hp⟩

/-- The first of two sentinels is found, but the other one only when it is asked for again: the first is not
asked for in the second round, which polls both partitions. -/
example :
    let p : Partition := ⟨"t", 0⟩
    let q : Partition := ⟨"t", 1⟩
    let client : BrokerClient Nat :=
      { listTopics := fun n => (.ok [], n)
        listPartitions := fun _ n => (.ok [p, q], n)
        resolve := fun _ _ n => (if n = 1 then .error (.transient "blip") else .ok 5, n + 1)
        poll := fun _ _ _ n => ({ records := .ok [] }, n)
        commit := fun _ n => (.ok (), n)
        close := fun n => (.ok (), n) }
    let f : Fetcher := { offsets := (SortedMap.empty.insert p .latest).insert q .earliest }
    let t := (begin f 0).performAll client (List.replicate 9 (.act (.step 0)))
    t.runs.map (·.map (·.calls)) =
      [[[.resolve p .latest (some 5), .resolve q .earliest none],
        [.resolve q .earliest (some 5), .poll p 5, .poll q 5]]] := by
  decide +kernel

end FetchLife

end CheckpointedLog
