import CheckpointedLog.Proofs.Except
import CheckpointedLog.Proofs.Fetch.Grounded

namespace CheckpointedLog

variable {ω : Type}

namespace Fetcher

theorem positionAfter_ok {p : Partition} {last : Int64} {n : Position}
    (h : positionAfter p last = .ok n) : Position.after? last = some n := by
  unfold positionAfter at h
  split at h
  next position hafter => exact hafter.trans (congrArg some (Except.ok.inj h))
  next => cases h

/-- Each position that is committed is the one after the last offset of its partition. -/
theorem get?_of_positionsAfter {offsets positions : OffsetMap} {p : Partition} {n : Position}
    (h : positionsAfter offsets = .ok positions) (hn : positions.get? p = some n) :
    ∃ last, offsets.get? p = some last ∧ Position.after? last = some n := by
  obtain ⟨entries, hentries, h⟩ := exists_of_bind_eq_ok h
  obtain rfl := Except.ok.inj h
  obtain ⟨⟨q, last⟩, hmem, he⟩ := exists_of_mapM_eq_ok hentries (SortedMap.mem_of_get?_ofList hn)
  obtain ⟨m, hm, he⟩ := exists_of_bind_eq_ok he
  obtain ⟨rfl, rfl⟩ := Prod.mk.inj (Except.ok.inj he)
  exact ⟨last, SortedMap.get?_eq_some_iff.mpr hmem, positionAfter_ok hm⟩

theorem exists_of_positionsAfter {offsets positions : OffsetMap} {p : Partition} {last : Int64}
    (h : positionsAfter offsets = .ok positions) (hlast : offsets.get? p = some last) :
    ∃ n, positions.get? p = some n ∧ Position.after? last = some n := by
  have hcontains : positions.contains p = true := by
    obtain ⟨entries, hentries, h⟩ := exists_of_bind_eq_ok h
    obtain rfl := Except.ok.inj h
    obtain ⟨⟨q, n⟩, hmem, he⟩ :=
      exists_result_of_mapM_eq_ok hentries (SortedMap.get?_eq_some_iff.mp hlast)
    obtain ⟨m, -, he⟩ := exists_of_bind_eq_ok he
    obtain ⟨rfl, rfl⟩ := Prod.mk.inj (Except.ok.inj he)
    exact SortedMap.contains_foldl_insert (Or.inr ⟨m, hmem⟩)
  obtain ⟨n, hn⟩ := SortedMap.contains_eq_true_iff.mp hcontains
  obtain ⟨a, ha, hafter⟩ := get?_of_positionsAfter h hn
  obtain rfl := Option.some.inj (hlast.symm.trans ha)
  exact ⟨n, hn, hafter⟩

/-- The positions that are committed for a state are those after its concrete offsets. -/
theorem get?_positionsAfter_iff {s : OffsetState} {positions : OffsetMap}
    (h : positionsAfter s.concreteOffsets = .ok positions) {p : Partition} {n : Position} :
    positions.get? p = some n ↔
      ∃ last, s.get? p = some (.concrete last) ∧ Position.after? last = some n := by
  have hconcrete {last : Int64} :
      s.concreteOffsets.get? p = some last ↔ s.get? p = some (.concrete last) := by
    rw [OffsetState.get?_concreteOffsets, Option.bind_eq_some_iff]
    constructor
    · rintro ⟨o, ho, hlast⟩
      cases o with
      | concrete m =>
        obtain rfl := Option.some.inj hlast
        exact ho
      | _ => cases hlast
    · exact fun ho => ⟨_, ho, rfl⟩
  constructor
  · intro hn
    obtain ⟨last, hlast, hafter⟩ := get?_of_positionsAfter h hn
    exact ⟨last, hconcrete.mp hlast, hafter⟩
  · rintro ⟨last, hlast, hafter⟩
    obtain ⟨m, hm, hafter'⟩ := exists_of_positionsAfter h (hconcrete.mpr hlast)
    obtain rfl := Option.some.inj (hafter.symm.trans hafter')
    exact hm

end Fetcher

/-- Fetching is past an offset of a partition; `since` is what was seen after the offset was copied. -/
structure FetchTrace.Past (t : FetchTrace ω) (p : Partition) (copied : Int64) (since : FetchHistory) :
    Prop where
  offset : ∃ last, t.run.fetcher.offsets.get? p = some (.concrete last) ∧ copied ≤ last
  position : ∀ n, t.run.loop.positions.get? p = some n → copied < n
  records : ∀ r ∈ since.recordsFrom p, copied < r.offset

/-- Fetching is ahead of its offsets and past all copies of them, unless they are at the ends of the
range of numbers. -/
structure FetchTrace.Onward (t : FetchTrace ω) : Prop where
  position : ∀ p n last, t.run.loop.positions.get? p = some n →
    t.run.fetcher.offsets.get? p = some (.concrete last) →
      last < n ∨ last = Int64.minValue ∨ last = Int64.maxValue
  copies : ∀ before c after, t.history = before ++ .copied c :: after →
    ∀ p last, c.get? p = some (.concrete last) → last ≠ Int64.minValue → last ≠ Int64.maxValue →
      t.Past p last after

namespace Position

theorem lt_of_after? {last : Int64} {n : Position} (h : after? last = some n) : last < n := by
  rw [Int64.lt_iff_toInt_lt, toInt_after? h]
  omega

theorem beforeCapped_lt {n : Position} (h : beforeCapped n ≠ Int64.minValue) : beforeCapped n < n := by
  unfold beforeCapped at h ⊢
  split at h
  next hmin => exact absurd hmin h
  next hmin =>
    rw [if_neg hmin, Int64.lt_iff_toInt_lt, toInt_sub_one hmin]
    omega

theorem lt_afterCapped {last : Int64} (h : last ≠ Int64.maxValue) : last < afterCapped last := by
  rw [Int64.lt_iff_toInt_lt, toInt_afterCapped h]
  omega

end Position

namespace FetchTrace

variable {s : OffsetState} {l l' : FetchLoop} {f f' : Fetcher} {w w' : ω} {h : FetchHistory}
  {p : Partition} {copied : Int64} {since : FetchHistory} {r : Option Record}

theorem recordsFrom_event?_none (l : FetchLoop) (p : Partition) :
    FetchHistory.recordsFrom (l.event? none).toList p = [] := by
  cases he : l.event? none with
  | none => rfl
  | some e =>
    rcases FetchLoop.event?_none he with ⟨q, n, rfl⟩
    rfl

/-- As long as nothing of the partition changes, fetching stays past the offset. -/
theorem Past.of_same (b : Past ⟨⟨l, f, w⟩, h⟩ p copied since)
    (hoffset : f'.offsets.get? p = f.offsets.get? p)
    (hposition : l'.positions.get? p = l.positions.get? p) {events : FetchHistory}
    (hevents : events.recordsFrom p = []) (w' : ω) (h' : FetchHistory) :
    Past ⟨⟨l', f', w'⟩, h'⟩ p copied (since ++ events) where
  offset := by
    obtain ⟨last, hlast, hle⟩ := b.offset
    exact ⟨last, hoffset.trans hlast, hle⟩
  position n hn := b.position n (hposition.symm.trans hn)
  records r hr := by
    rw [FetchHistory.recordsFrom_append, hevents, List.append_nil] at hr
    exact b.records r hr

theorem Past.emitted (b : Past ⟨⟨l, f, w⟩, h⟩ p copied since) (c : Consistent s ⟨⟨l, f, w⟩, h⟩)
    {r : Record} {records : List Record} {rest : List Polled} {failure : Option SourceError}
    (hs : l.stage = .delivering p (r :: records) rest failure)
    (hr : ¬ r.offset < (l.positions.get? p).getD 0) :
    Past ⟨⟨{ l with
        stage := .delivering p records rest failure
        positions := l.positions.insert p (Position.afterCapped r.offset) },
      { f with offsets := (f.offsets.advance p r.offset).2 }, w⟩, h ++ [.emitted p r]⟩
      p copied (since ++ [.emitted p r]) := by
  have hcovered := c.covered
  change l.stage.Covered l.positions f.offsets at hcovered
  rw [hs] at hcovered
  obtain ⟨n, hn⟩ := SortedMap.contains_eq_true_iff.mp hcovered.1
  rw [hn, Option.getD_some, Int64.not_lt] at hr
  have hlt : copied < r.offset := Int64.lt_of_lt_of_le (b.position n hn) hr
  have hself := (c.emitted hs (by rwa [hn, Option.getD_some, Int64.not_lt])).entry p
  rw [FetchHistory.entry_emitted, if_pos rfl] at hself
  constructor
  case offset => exact ⟨r.offset, hself, Int64.le_of_lt hlt⟩
  case position =>
    intro m hm
    obtain rfl := Option.some.inj ((SortedMap.get?_insert_self l.positions p _).symm.trans hm)
    exact Int64.lt_of_lt_of_le hlt (Position.le_afterCapped r.offset)
  case records =>
    intro x hx
    rw [FetchHistory.recordsFrom_emitted, if_pos rfl] at hx
    rcases List.mem_append.mp hx with hx | hx
    · exact b.records x hx
    · exact List.mem_singleton.mp hx ▸ hlt

theorem Past.of_step (b : Past ⟨⟨l, f, w⟩, h⟩ p copied since) (c : Consistent s ⟨⟨l, f, w⟩, h⟩)
    {client : BrokerClient ω} {now : Nat} (hstep : l.Step client now f w l' f' w' r) :
    Past ⟨⟨l', f', w'⟩, h ++ (l.event? r).toList⟩ p copied (since ++ (l.event? r).toList) := by
  have hcovered := c.covered
  change l.stage.Covered l.positions f.offsets at hcovered
  have hquiet := recordsFrom_event?_none l p
  cases hstep with
  | begun =>
    exact b.of_same rfl (congrArg (·.get? p) (FetchLoop.beginRound_positions ..)) hquiet _ _
  | untracked | overflowed | unresolved =>
    exact b.of_same rfl (congrArg (·.get? p) (FetchLoop.failRound_positions ..)) hquiet _ _
  | settled =>
    exact b.of_same rfl (congrArg (·.get? p) (FetchLoop.settle_positions ..)) hquiet _ _
  | delivered =>
    exact b.of_same rfl (congrArg (·.get? p) (FetchLoop.settleRest_positions ..)) hquiet _ _
  | known | resolved | polled | skipped | dropped | ended =>
    refine b.of_same ?_ ?_ hquiet _ _ <;> rfl
  | @positioned _ q _ last n hs hp ho hn =>
    by_cases hq : p = q
    · -- The position is the one after an offset that is not below the copied one.
      subst hq
      obtain ⟨a, ha, hle⟩ := b.offset
      obtain rfl := Offset.concrete.inj (Option.some.inj (ho.symm.trans ha))
      refine ⟨⟨last, ho, hle⟩, fun m hm => ?_, fun x hx => ?_⟩
      · obtain rfl := Option.some.inj ((SortedMap.get?_insert_self l.positions p n).symm.trans hm)
        exact Int64.lt_of_le_of_lt hle (Position.lt_of_after? hn)
      · rw [FetchHistory.recordsFrom_append, hquiet, List.append_nil] at hx
        exact b.records x hx
    · exact b.of_same rfl (SortedMap.get?_insert_of_ne l.positions n hq) hquiet _ _
  | @recorded _ _ q n hs =>
    rw [hs] at hcovered
    obtain ⟨-, o, ho, hsentinel⟩ := hcovered
    -- The partition that is recorded has a sentinel still.
    have hq : p ≠ q := by
      rintro rfl
      obtain ⟨a, ha, -⟩ := b.offset
      obtain rfl := Option.some.inj (ho.symm.trans ha)
      cases hsentinel
    exact b.of_same (FetchLoop.get?_recordPosition_of_ne f.offsets n hq)
      (SortedMap.get?_insert_of_ne l.positions n hq) hquiet _ _
  | @emitted q x _ _ _ hs hr hc =>
    rw [show l.event? (some x) = some (.emitted q x) by simp [FetchLoop.event?, hs]]
    by_cases hq : p = q
    · subst hq
      exact b.emitted c hs hr
    · refine b.of_same (OffsetState.get?_advance_of_ne f.offsets _ hq)
        (SortedMap.get?_insert_of_ne l.positions _ hq) ?_ _ _
      simp [FetchHistory.recordsFrom, Ne.symm hq]

namespace Onward

/-- Events other than copies leave the copies of a run where they are. -/
theorem of_events {t t' : FetchTrace ω} (o : t.Onward) {events : FetchHistory}
    (hh : t'.history = t.history ++ events) (hevents : ∀ c, .copied c ∉ events)
    (hposition : ∀ p n last, t'.run.loop.positions.get? p = some n →
      t'.run.fetcher.offsets.get? p = some (.concrete last) →
        last < n ∨ last = Int64.minValue ∨ last = Int64.maxValue)
    (hpast : ∀ p last since, t.Past p last since → t'.Past p last (since ++ events)) : t'.Onward where
  position := hposition
  copies before c after hsplit p last hlast hmin hmax := by
    rw [hh] at hsplit
    rcases FetchHistory.copied_of_append hsplit with ⟨rest, rfl, hfront⟩ | ⟨front, -, he⟩
    · exact hpast p last rest (o.copies before c rest hfront p last hlast hmin hmax)
    · exact absurd (he ▸ List.mem_append_right front (List.mem_cons_self ..)) (hevents c)

/-- Before each position lies the offset, or the offset is at an end of the range. -/
theorem position_of_step (o : Onward ⟨⟨l, f, w⟩, h⟩) (c : Consistent s ⟨⟨l, f, w⟩, h⟩)
    {client : BrokerClient ω} {now : Nat} (hstep : l.Step client now f w l' f' w' r)
    {p : Partition} {n : Position} {last : Int64} (hn : l'.positions.get? p = some n)
    (hlast : f'.offsets.get? p = some (.concrete last)) :
    last < n ∨ last = Int64.minValue ∨ last = Int64.maxValue := by
  have hcovered := c.covered
  change l.stage.Covered l.positions f.offsets at hcovered
  have hsame := o.position p n last
  cases hstep with
  | begun => exact hsame (FetchLoop.beginRound_positions .. ▸ hn) hlast
  | untracked | overflowed | unresolved =>
    exact hsame (FetchLoop.failRound_positions .. ▸ hn) hlast
  | settled => exact hsame (FetchLoop.settle_positions .. ▸ hn) hlast
  | delivered => exact hsame (FetchLoop.settleRest_positions .. ▸ hn) hlast
  | known | resolved | polled | skipped | dropped | ended => exact hsame hn hlast
  | positioned hs hp ho hafter =>
    rcases SortedMap.of_get?_insert hn with ⟨rfl, rfl⟩ | ⟨-, hn⟩
    · obtain rfl := Offset.concrete.inj (Option.some.inj (ho.symm.trans hlast))
      exact Or.inl (Position.lt_of_after? hafter)
    · exact hsame hn hlast
  | @recorded _ _ q m hs =>
    rw [hs] at hcovered
    obtain ⟨-, a, ha, hsentinel⟩ := hcovered
    rcases SortedMap.of_get?_insert hn with ⟨rfl, rfl⟩ | ⟨hq, hn⟩
    · have hself := FetchLoop.get?_recordPosition_self ha hsentinel m
      obtain rfl := Offset.concrete.inj (Option.some.inj (hself.symm.trans hlast))
      by_cases hmin : Position.beforeCapped m = Int64.minValue
      · exact Or.inr (Or.inl hmin)
      · exact Or.inl (Position.beforeCapped_lt hmin)
    · exact hsame hn ((FetchLoop.get?_recordPosition_of_ne f.offsets m hq).symm.trans hlast)
  | @emitted q x _ _ _ hs hr hc =>
    rcases SortedMap.of_get?_insert hn with ⟨rfl, rfl⟩ | ⟨hq, hn⟩
    · have hself := (c.emitted hs hr).entry p
      rw [FetchHistory.entry_emitted, if_pos rfl] at hself
      obtain rfl := Offset.concrete.inj (Option.some.inj (hself.symm.trans hlast))
      by_cases hmax : x.offset = Int64.maxValue
      · exact Or.inr (Or.inr hmax)
      · exact Or.inl (Position.lt_afterCapped hmax)
    · exact hsame hn ((OffsetState.get?_advance_of_ne f.offsets _ hq).symm.trans hlast)

theorem of_step (o : Onward ⟨⟨l, f, w⟩, h⟩) (c : Consistent s ⟨⟨l, f, w⟩, h⟩)
    {client : BrokerClient ω} {now : Nat} (hstep : l.Step client now f w l' f' w' r) :
    Onward ⟨⟨l', f', w'⟩, h ++ (l.event? r).toList⟩ := by
  refine o.of_events rfl (fun a ha => ?_)
    (fun p n last hn hlast => o.position_of_step c hstep hn hlast)
    fun p last since b => b.of_step c hstep
  obtain ⟨_, _, he⟩ | ⟨_, _, he⟩ := FetchLoop.event?_cases (Option.mem_toList.mp ha)
  · cases he
  · cases he

/-- At the moment of a copy, fetching is past the copied offsets. -/
theorem copy (o : Onward ⟨⟨l, f, w⟩, h⟩) : Onward ⟨⟨l, f, w⟩, h ++ [.copied f.offsets]⟩ where
  position := o.position
  copies before c after hsplit p last hlast hmin hmax := by
    rcases FetchHistory.copied_of_append hsplit with ⟨rest, rfl, hfront⟩ | ⟨front, -, he⟩
    · exact (o.copies before c rest hfront p last hlast hmin hmax).of_same rfl rfl rfl _ _
    · rcases List.singleton_eq_append_iff.mp he with ⟨-, he⟩ | ⟨-, he⟩
      · obtain ⟨hc, rfl⟩ := List.cons.inj he
        obtain rfl := FetchEvent.copied.inj hc
        refine ⟨⟨last, hlast, Int64.le_refl last⟩, fun n hn => ?_, nofun⟩
        rcases o.position p n last hn hlast with hlt | he | he
        · exact hlt
        · exact absurd he hmin
        · exact absurd he hmax
      · cases he

theorem add (o : Onward ⟨⟨l, f, w⟩, h⟩) (c : Consistent s ⟨⟨l, f, w⟩, h⟩) (a : Offset)
    (ps : List Partition) : Onward ⟨⟨l, { f with offsets := (f.offsets.addPartitions a ps).2 }, w⟩,
      h ++ [.added ps a]⟩ := by
  have hkept {p : Partition} {last : Int64} (hlast : f.offsets.get? p = some (.concrete last)) :
      (f.offsets.addPartitions a ps).2.get? p = some (.concrete last) := by
    rw [OffsetState.get?_addPartitions, hlast, Option.some_or]
  refine o.of_events rfl (by simp) (fun p n last hn hlast => ?_) fun p last since b => ?_
  · obtain ⟨m, hm, -⟩ := c.position p n hn
    obtain rfl := Offset.concrete.inj (Option.some.inj ((hkept hm).symm.trans hlast))
    exact o.position p n m hn hm
  · obtain ⟨m, hm, -⟩ := b.offset
    exact b.of_same ((hkept hm).trans hm.symm) rfl rfl _ _

theorem begin (f : Fetcher) (w : ω) : (FetchTrace.begin f w).Onward where
  position _ _ _ hn := nomatch hn
  copies before c after hsplit := by simp [FetchTrace.begin] at hsplit

variable {t : FetchTrace ω}

theorem cancelled (o : t.Onward) : Onward { t with run := t.run.cancel } where
  position := o.position
  copies before c after hsplit p last hlast hmin hmax :=
    have b := o.copies before c after hsplit p last hlast hmin hmax
    ⟨b.offset, b.position, b.records⟩

theorem inWorld (o : t.Onward) (w : ω) : (t.inWorld w).Onward where
  position := o.position
  copies before c after hsplit p last hlast hmin hmax :=
    have b := o.copies before c after hsplit p last hlast hmin hmax
    ⟨b.offset, b.position, b.records⟩

end Onward

end FetchTrace

end CheckpointedLog
