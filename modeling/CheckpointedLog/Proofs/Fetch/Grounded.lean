import CheckpointedLog.Proofs.Fetch.Consistency

namespace CheckpointedLog

variable {ω : Type}

/-- No sentinel was resolved to a negative position. -/
def FetchHistory.Grounded (h : FetchHistory) : Prop :=
  ∀ p n, FetchEvent.resolved p n ∈ h → 0 ≤ n

theorem FetchHistory.Grounded.of_append {h h' : FetchHistory}
    (hg : FetchHistory.Grounded (h ++ h')) : h.Grounded :=
  fun p n hn => hg p n (List.mem_append_left _ hn)

theorem FetchHistory.Grounded.append {h events : FetchHistory} (hg : h.Grounded)
    (he : ∀ p n, .resolved p n ∈ events → 0 ≤ n) : FetchHistory.Grounded (h ++ events) :=
  fun p n hn => (List.mem_append.mp hn).elim (hg p n) (he p n)

/-- All positions of a run are positions, and all its offsets can be stored. -/
structure FetchTrace.Grounded (t : FetchTrace ω) : Prop where
  positions : ∀ p n, t.run.loop.positions.get? p = some n → 0 ≤ n
  offsets : OffsetState.Storable t.run.fetcher.offsets

namespace Position

theorem nonneg_of_after? {last : Int64} {n : Position} (hn : after? last = some n)
    (h : -1 ≤ last) : 0 ≤ n := by
  have hlast := Int64.le_iff_toInt_le.mp h
  rw [show (-1 : Int64).toInt = -1 by decide] at hlast
  rw [Int64.le_iff_toInt_le, Int64.toInt_zero, toInt_after? hn]
  omega

end Position

theorem OffsetState.Storable.advance {s : OffsetState} (h : s.Storable) (p : Partition)
    {last : Int64} (hlast : -1 ≤ last) : OffsetState.Storable (s.advance p last).2 := by
  unfold OffsetState.advance
  split
  · exact h
  · split
    · exact h.insert hlast
    · exact h

namespace FetchTrace.Grounded

variable {s : OffsetState} {l : FetchLoop} {f : Fetcher} {w : ω} {h : FetchHistory}

theorem insert (g : Grounded ⟨⟨l, f, w⟩, h⟩) {stage : FetchStage} {p : Partition} {n : Position}
    (hn : 0 ≤ n) {offsets : OffsetState} (ho : offsets.Storable) (w' : ω) (h' : FetchHistory) :
    Grounded ⟨⟨{ l with stage := stage, positions := l.positions.insert p n },
      { f with offsets := offsets }, w'⟩, h'⟩ where
  positions q m hm := by
    rcases SortedMap.of_get?_insert hm with ⟨-, rfl⟩ | ⟨-, hm⟩
    · exact hn
    · exact g.positions q m hm
  offsets := ho

theorem of_step (c : Consistent s ⟨⟨l, f, w⟩, h⟩) (g : Grounded ⟨⟨l, f, w⟩, h⟩)
    {client : BrokerClient ω} {now : Nat} {l' : FetchLoop} {f' : Fetcher} {w' : ω}
    {r : Option Record} (hstep : l.Step client now f w l' f' w' r)
    (hg : FetchHistory.Grounded (h ++ (l.event? r).toList)) :
    Grounded ⟨⟨l', f', w'⟩, h ++ (l.event? r).toList⟩ := by
  have of_positions {l₁ : FetchLoop} (hp : l₁.positions = l.positions) (w₁ : ω) (h₁ : FetchHistory) :
      Grounded ⟨⟨l₁, f, w₁⟩, h₁⟩ :=
    ⟨fun p n hn => g.positions p n (hp ▸ hn), g.offsets⟩
  have hcovered := c.covered
  change l.stage.Covered l.positions f.offsets at hcovered
  cases hstep with
  | begun => exact of_positions (FetchLoop.beginRound_positions ..) _ _
  | untracked | overflowed | unresolved =>
    exact of_positions (FetchLoop.failRound_positions ..) _ _
  | settled => exact of_positions (FetchLoop.settle_positions ..) _ _
  | delivered => exact of_positions (FetchLoop.settleRest_positions ..) _ _
  | known | resolved | polled | skipped | dropped | ended => exact ⟨g.positions, g.offsets⟩
  | @positioned _ p _ last n hs hp ho hn =>
    have hlast : -1 ≤ last := g.offsets p _ ho
    exact g.insert (Position.nonneg_of_after? hn hlast) g.offsets _ _
  | @recorded _ _ p n hs =>
    rw [show l.event? none = some (.resolved p n) by simp [FetchLoop.event?, hs]] at hg ⊢
    have hn : 0 ≤ n := hg p n (List.mem_append_right _ (List.mem_singleton_self _))
    have hrecord : OffsetState.Storable (FetchLoop.recordPosition f.offsets p n) := by
      unfold FetchLoop.recordPosition
      split
      · exact g.offsets.advance p (Position.neg_one_le_beforeCapped_iff.mpr hn)
      · exact g.offsets
    exact g.insert hn hrecord _ _
  | @emitted p r _ _ _ hs hr hc =>
    rw [hs] at hcovered
    obtain ⟨n, hn⟩ := SortedMap.contains_eq_true_iff.mp hcovered.1
    rw [hn, Option.getD_some, Int64.not_lt] at hr
    -- Whatever the record claims, it does not lie before its position.
    have hoffset : 0 ≤ r.offset := Int64.le_trans (g.positions p n hn) hr
    have hlast : -1 ≤ r.offset := Int64.le_trans (by decide) hoffset
    exact g.insert (Int64.le_trans hoffset (Position.le_afterCapped _)) (g.offsets.advance p hlast) _ _

end FetchTrace.Grounded

/-- What was seen of fetching left only offsets that a snapshot can hold. -/
def FetchHistory.Restorable (h : FetchHistory) : Prop :=
  ∀ p, match (h.recordsFrom p).getLast? with
    | some r => -1 ≤ r.offset
    | none => ∀ n, (h.resolutions p).getLast? = some n → 0 ≤ n

/-- Every offset that a partition came with can be stored. -/
def FetchHistory.Rooted (s : OffsetState) (h : FetchHistory) : Prop :=
  ∀ p o, h.origin s p = some o → o.Storable

theorem FetchHistory.Rooted.append {s : OffsetState} {h events : FetchHistory} (hr : h.Rooted s)
    (he : ∀ ps o, .added ps o ∈ events → o.Storable) : FetchHistory.Rooted s (h ++ events) := by
  intro p o ho
  rw [FetchHistory.origin, List.findSome?_append, ← Option.or_assoc] at ho
  rcases Option.or_eq_some_iff.mp ho with ho | ⟨-, ho⟩
  · exact hr p o ho
  obtain ⟨e, hmem, hvalue⟩ := List.exists_of_findSome?_eq_some ho
  cases e with
  | added ps a =>
    simp only at hvalue
    split at hvalue
    · exact Option.some.inj hvalue ▸ he ps a hmem
    · cases hvalue
  | _ => cases hvalue

namespace FetchTrace

variable {s : OffsetState} {t : FetchTrace ω}

theorem Consistent.inWorld (c : t.Consistent s) (w : ω) : (t.inWorld w).Consistent s :=
  ⟨c.entry, c.position, c.sentinel, c.copies, c.covered⟩

theorem Consistent.cancelled (c : t.Consistent s) :
    Consistent s { t with run := t.run.cancel } :=
  ⟨c.entry, c.position, c.sentinel, c.copies, c.covered⟩

theorem storable_iff (c : t.Consistent s) (hs : t.history.Rooted s) :
    OffsetState.Storable t.run.fetcher.offsets ↔ t.history.Restorable := by
  have hentry (p : Partition) := c.entry p
  constructor
  · intro h p
    have hp := hentry p
    unfold FetchHistory.entry at hp
    cases hr : (FetchHistory.recordsFrom t.history p).getLast? with
    | some r =>
      rw [hr] at hp
      exact h p _ hp
    | none =>
      intro n hn
      rw [hr, hn] at hp
      exact Position.neg_one_le_beforeCapped_iff.mp (h p _ hp)
  · intro h p o ho
    have hp := h p
    rw [hentry p] at ho
    unfold FetchHistory.entry at ho
    cases hr : (FetchHistory.recordsFrom t.history p).getLast? with
    | some r =>
      rw [hr] at ho hp
      exact Option.some.inj ho ▸ hp
    | none =>
      rw [hr] at ho hp
      cases hn : (FetchHistory.resolutions t.history p).getLast? with
      | some n =>
        rw [hn] at ho
        exact Option.some.inj ho ▸ Position.neg_one_le_beforeCapped_iff.mpr (hp n hn)
      | none =>
        rw [hn] at ho
        exact hs p o ho

end FetchTrace

/-- What is known of fetching with any client. -/
structure FetchTrace.Regular (s : OffsetState) (t : FetchTrace ω) : Prop where
  consistent : t.Consistent s
  rooted : t.history.Rooted s
  grounded : t.history.Grounded → t.Grounded

namespace FetchTrace.Regular

variable {s : OffsetState} {t : FetchTrace ω}

theorem of_step {l l' : FetchLoop} {f f' : Fetcher} {w w' : ω} {h : FetchHistory}
    {client : BrokerClient ω} {now : Nat} {x : Option Record} (r : Regular s ⟨⟨l, f, w⟩, h⟩)
    (hstep : l.Step client now f w l' f' w' x) :
    Regular s ⟨⟨l', f', w'⟩, h ++ (l.event? x).toList⟩ where
  consistent := r.consistent.of_step hstep
  rooted := by
    apply r.rooted.append
    intro ps o h
    obtain ⟨_, _, he⟩ | ⟨_, _, he⟩ := FetchLoop.event?_cases (Option.mem_toList.mp h)
    · cases he
    · cases he
  grounded hg := Grounded.of_step r.consistent (r.grounded hg.of_append) hstep hg

theorem begin (settings : FetchSettings) (w : ω) (hs : s.Storable) :
    (FetchTrace.begin { settings := settings, offsets := s } w).Regular s where
  consistent := Consistent.begin ⟨settings, s, false⟩ w
  rooted p o ho := hs p o (by simpa [FetchTrace.begin, FetchHistory.origin] using ho)
  grounded _ := ⟨fun _ _ hn => (by cases hn), hs⟩

theorem add (r : t.Regular s) (client : BrokerClient ω) {o : Offset} (ho : o.Storable)
    (ps : List Partition) : (t.perform client (.add o ps)).Regular s where
  consistent := r.consistent.perform client _
  rooted := r.rooted.append fun qs a h => by
    obtain ⟨rfl, rfl⟩ := FetchEvent.added.inj (List.mem_singleton.mp h)
    exact ho
  grounded hg :=
    have g := r.grounded hg.of_append
    ⟨g.positions, g.offsets.addPartitions ho ps⟩

theorem copy (r : t.Regular s) (client : BrokerClient ω) :
    (t.perform client .copy).Regular s where
  consistent := r.consistent.perform client _
  rooted := r.rooted.append fun _ _ h => nomatch List.mem_singleton.mp h
  grounded hg :=
    have g := r.grounded hg.of_append
    ⟨g.positions, g.offsets⟩

theorem cancelled (r : t.Regular s) : Regular s { t with run := t.run.cancel } :=
  ⟨r.consistent.cancelled, r.rooted,
    fun hg => ⟨(r.grounded hg).positions, (r.grounded hg).offsets⟩⟩

theorem inWorld (r : t.Regular s) (w : ω) : (t.inWorld w).Regular s :=
  ⟨r.consistent.inWorld w, r.rooted, fun hg => ⟨(r.grounded hg).positions, (r.grounded hg).offsets⟩⟩

end FetchTrace.Regular

end CheckpointedLog
