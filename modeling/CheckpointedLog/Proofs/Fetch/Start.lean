import CheckpointedLog.Proofs.Fetch.Delivery
import CheckpointedLog.Proofs.Fetch.Onward

namespace CheckpointedLog

namespace Position

theorem beforeCapped_of_after? {last : Int64} {n : Position} (h : after? last = some n) :
    beforeCapped n = last := by
  have hnext := toInt_after? h
  have hlow := last.le_toInt
  have hmin : n ≠ Int64.minValue := by
    rintro rfl
    rw [Int64.toInt_minValue] at hnext
    omega
  apply Int64.toInt_inj.mp
  rw [beforeCapped, if_neg hmin, toInt_sub_one hmin]
  omega

end Position

/-- The partition came with the offset `last`, or is to be read from where the group committed. -/
def OffsetState.ComesWith (s : OffsetState) (p : Partition) (last : Int64) : Prop :=
  s.get? p = some (.concrete last) ∨ s.get? p = some .groupCommitted

/-- Fetching reads the partition from the position `n` on. As long as its sentinel is not resolved, this
is where the group committed. -/
structure FetchTrace.StartsAt (p : Partition) (n : Position) (t : FetchTrace SharedBroker) : Prop where
  resolved : ∀ m, .resolved p m ∈ t.history → m = n
  recording : ∀ round todo m, t.run.loop.stage = .recording round todo p m → m = n
  position : ∀ m, t.run.loop.positions.get? p = some m → t.history.recordsFrom p = [] → m = n
  committed : t.run.fetcher.offsets.get? p = some .groupCommitted →
    t.run.world.broker.committed.get? p = some n

namespace FetchLoop

variable {ω : Type} {client : BrokerClient ω} {now : Nat} {l l' : FetchLoop} {f f' : Fetcher}
  {w w' : ω} {r : Option Record}

/-- A position that is to be recorded was just resolved by the client. -/
theorem Step.of_recording (h : l.Step client now f w l' f' w' r) {round todo : List Partition}
    {p : Partition} {n : Position} (hl : l'.stage = .recording round todo p n) :
    ∃ o, f.offsets.get? p = some o ∧ o.isSentinel = true ∧ client.resolve p o w = (.ok n, w') := by
  have hresting (hr : l'.stage.Resting) : False := by
    rw [hl] at hr
    exact hr
  cases h with
  | resolved _ _ ho hs hr =>
    obtain ⟨-, -, rfl, rfl⟩ := FetchStage.recording.inj hl
    exact ⟨_, ho, hs, hr⟩
  | begun =>
    rcases beginRound_stage f now l with hr | hr
    · exact (hresting hr).elim
    · cases hr.symm.trans hl
  | untracked | overflowed | unresolved => exact (hresting (failRound_resting ..)).elim
  | settled =>
    rcases settle_stage f now none l _ with hr | ⟨_, _, _, _, _, _, _, hr⟩
    · exact (hresting hr).elim
    · cases hr.symm.trans hl
  | delivered =>
    rcases settleRest_stage f now _ l _ with hr | ⟨_, _, _, _, _, _, _, hr⟩
    · exact (hresting hr).elim
    · cases hr.symm.trans hl
  | known | positioned | polled | recorded | skipped | dropped | emitted => cases hl
  | ended h => cases h.symm.trans hl

/-- A position was there before, it is the one after a last offset, it was resolved, or it is the one
after an emitted record. -/
theorem Step.of_position (h : l.Step client now f w l' f' w' r) {p : Partition} {n : Position}
    (hn : l'.positions.get? p = some n) :
    l.positions.get? p = some n ∨
      (∃ last, f.offsets.get? p = some (.concrete last) ∧ Position.after? last = some n) ∨
      (∃ round todo, l.stage = .recording round todo p n) ∨ ∃ x, l.event? r = some (.emitted p x) := by
  cases h with
  | begun => exact Or.inl (beginRound_positions .. ▸ hn)
  | untracked | overflowed | unresolved => exact Or.inl (failRound_positions .. ▸ hn)
  | settled => exact Or.inl (settle_positions .. ▸ hn)
  | delivered => exact Or.inl (settleRest_positions .. ▸ hn)
  | known | resolved | polled | skipped | dropped | ended => exact Or.inl hn
  | positioned _ _ ho hafter =>
    rcases SortedMap.of_get?_insert hn with ⟨rfl, rfl⟩ | ⟨-, hn⟩
    · exact Or.inr (Or.inl ⟨_, ho, hafter⟩)
    · exact Or.inl hn
  | recorded hs =>
    rcases SortedMap.of_get?_insert hn with ⟨rfl, rfl⟩ | ⟨-, hn⟩
    · exact Or.inr (Or.inr (Or.inl ⟨_, _, hs⟩))
    · exact Or.inl hn
  | @emitted _ x _ _ _ hs =>
    rcases SortedMap.of_get?_insert hn with ⟨rfl, rfl⟩ | ⟨-, hn⟩
    · exact Or.inr (Or.inr (Or.inr ⟨x, by simp [event?, hs]⟩))
    · exact Or.inl hn

theorem recording_of_event? {p : Partition} {n : Position} (h : l.event? r = some (.resolved p n)) :
    ∃ round todo, l.stage = .recording round todo p n := by
  unfold event? at h
  split at h
  next hs =>
    obtain ⟨rfl, rfl⟩ := FetchEvent.resolved.inj (Option.some.inj h)
    exact ⟨_, _, hs⟩
  next => cases h
  next => cases h

end FetchLoop

theorem OffsetState.ComesWith.origin {s : OffsetState} {p : Partition} {last : Int64}
    (hs : s.ComesWith p last) (h : FetchHistory) : h.origin s p = s.get? p := by
  rcases hs with hs | hs <;> rw [FetchHistory.origin, hs, Option.some_or]

namespace FetchTrace.StartsAt

variable {s : OffsetState} {p : Partition} {last : Int64} {n : Position} {t : FetchTrace SharedBroker}
  {l l' : FetchLoop} {f f' : Fetcher} {w w' : SharedBroker} {h : FetchHistory}

/-- As long as the group's sentinel is there, nothing was read of the partition, and it came with it. -/
theorem unread (c : t.Consistent s) (hs : s.ComesWith p last)
    (ho : t.run.fetcher.offsets.get? p = some .groupCommitted) :
    t.history.recordsFrom p = [] ∧ t.history.resolutions p = [] ∧
      s.get? p = some .groupCommitted := by
  obtain ⟨hrecords, hresolutions, horigin⟩ :=
    FetchHistory.of_entry_isSentinel ((c.entry p).symm.trans ho) rfl
  exact ⟨hrecords, hresolutions, (hs.origin _).symm.trans horigin⟩

/-- Before the first record the offset is the one before the start, unless the sentinel is still there. -/
theorem offset_of_unread (a : StartsAt p n t) (c : t.Consistent s) (hs : s.ComesWith p last)
    (hn : Position.after? last = some n) (hrecords : t.history.recordsFrom p = []) :
    t.run.fetcher.offsets.get? p = some (.concrete last) ∨
      t.history.resolutions p = [] ∧ t.run.fetcher.offsets.get? p = some .groupCommitted := by
  have hentry := c.entry p
  rw [FetchHistory.entry, hrecords, List.getLast?_nil] at hentry
  cases hm : (t.history.resolutions p).getLast? with
  | some m =>
    -- What was resolved is the start, and the offset before it is recorded.
    obtain rfl := a.resolved m (FetchHistory.mem_resolutions.mp (List.mem_of_getLast? hm))
    simp only [hm, Position.beforeCapped_of_after? hn] at hentry
    exact Or.inl hentry
  | none =>
    simp only [hm, hs.origin] at hentry
    rw [hentry]
    exact hs.imp_right fun hs => ⟨List.getLast?_eq_none_iff.mp hm, hs⟩

/-- Before the first record a concrete offset is the one before the start. -/
theorem eq_last_of_unread (a : StartsAt p n t) (c : t.Consistent s) (hs : s.ComesWith p last)
    (hn : Position.after? last = some n) (hrecords : t.history.recordsFrom p = []) {x : Int64}
    (hx : t.run.fetcher.offsets.get? p = some (.concrete x)) : x = last := by
  rcases a.offset_of_unread c hs hn hrecords with ho | ⟨-, ho⟩
  · exact Offset.concrete.inj (Option.some.inj (hx.symm.trans ho))
  · cases hx.symm.trans ho

theorem start_eq (a : StartsAt p n t) (hs : s.ComesWith p last)
    (hn : Position.after? last = some n) {x : Int} (hx : t.history.start s p = some x) :
    x = n.toInt := by
  rw [FetchHistory.start, hs.origin] at hx
  rcases hs with hs | hs
  · rw [hs] at hx
    rw [← Option.some.inj hx, Position.toInt_after? hn]
  · rw [hs] at hx
    obtain ⟨m, hm, rfl⟩ := Option.map_eq_some_iff.mp hx
    rw [a.resolved m (FetchHistory.mem_resolutions.mp (List.mem_of_getLast? hm))]

/-- A partition that came with an offset, or of which the sentinel was resolved, has an offset. -/
theorem exists_offset (c : t.Consistent s) (hs : s.ComesWith p last)
    (hknown : s.get? p = some (.concrete last) ∨ t.history.resolutions p ≠ []) :
    ∃ x, t.run.fetcher.offsets.get? p = some (.concrete x) := by
  have hentry := c.entry p
  unfold FetchHistory.entry at hentry
  split at hentry
  next r _ => exact ⟨r.offset, hentry⟩
  split at hentry
  next m _ => exact ⟨_, hentry⟩
  next hnone =>
    rw [hs.origin] at hentry
    rcases hknown with hlast | hresolved
    · exact ⟨last, hentry.trans hlast⟩
    · exact absurd (List.getLast?_eq_none_iff.mp hnone) hresolved

/-- The broker resolves the sentinel of the group to where the group committed. -/
theorem resolve_groupCommitted {m : Position} (hw : w.broker.committed.get? p = some n)
    (h : SharedBroker.client.resolve p .groupCommitted w = (.ok m, w')) : m = n := by
  have hanswer : (w.turn.broker.resolve p .groupCommitted).1 = .ok m := congrArg Prod.fst h
  unfold MemoryBroker.resolve at hanswer
  split at hanswer
  · cases hanswer
  · rw [w.turn_grows.committed, hw] at hanswer
    exact (Except.ok.inj hanswer).symm

theorem of_step (a : StartsAt p n ⟨⟨l, f, w⟩, h⟩) (c : Consistent s ⟨⟨l, f, w⟩, h⟩)
    (hs : s.ComesWith p last) (hn : Position.after? last = some n) {now : Nat} {r : Option Record}
    (hstep : l.Step SharedBroker.client now f w l' f' w' r) :
    StartsAt p n ⟨⟨l', f', w'⟩, h ++ (l.event? r).toList⟩ := by
  have c' := c.of_step hstep
  constructor
  case resolved =>
    intro m hm
    rcases List.mem_append.mp hm with hm | hm
    · exact a.resolved m hm
    · obtain ⟨round, todo, hl⟩ := FetchLoop.recording_of_event? (Option.mem_toList.mp hm)
      exact a.recording round todo m hl
  case recording =>
    -- What is to be recorded was resolved at this step.
    intro round todo m hl
    obtain ⟨o, ho, hsentinel, hr⟩ := hstep.of_recording hl
    -- The only sentinel that the partition can have is that of the group.
    obtain ⟨-, -, horigin⟩ := FetchHistory.of_entry_isSentinel ((c.entry p).symm.trans ho) hsentinel
    rw [hs.origin] at horigin
    rcases hs with hs | hs
    · obtain rfl := Option.some.inj (hs.symm.trans horigin)
      cases hsentinel
    · obtain rfl := Option.some.inj (hs.symm.trans horigin)
      exact resolve_groupCommitted (a.committed ho) hr
  case position =>
    -- Before the first record a position comes from the offset, or from what was resolved.
    intro m hm hrecords
    rw [FetchHistory.recordsFrom_append, List.append_eq_nil_iff] at hrecords
    rcases hstep.of_position hm with hm | ⟨x, hx, hafter⟩ | ⟨round, todo, hl⟩ | ⟨x, hx⟩
    · exact a.position m hm hrecords.1
    · obtain rfl := a.eq_last_of_unread c hs hn hrecords.1 hx
      exact Option.some.inj (hafter.symm.trans hn)
    · exact a.recording round todo m hl
    · have hmem : x ∈ FetchHistory.recordsFrom (l.event? r).toList p :=
        FetchHistory.mem_recordsFrom.mpr (Option.mem_toList.mpr hx)
      rw [hrecords.2] at hmem
      cases hmem
  case committed =>
    -- A sentinel that is still there was there before, as nothing becomes a sentinel again.
    intro ho
    have hbefore : f.offsets.get? p = some .groupCommitted := by
      obtain ⟨hrecords, hresolutions, horigin⟩ := unread c' hs ho
      rw [FetchHistory.recordsFrom_append, List.append_eq_nil_iff] at hrecords
      rw [FetchHistory.resolutions_append, List.append_eq_nil_iff] at hresolutions
      have hentry := c.entry p
      rw [FetchHistory.entry, hrecords.1, hresolutions.1, hs.origin, horigin] at hentry
      exact hentry
    exact (congrArg (SortedMap.get? · p) hstep.grows.committed).trans (a.committed hbefore)

theorem added (a : StartsAt p n ⟨⟨l, f, w⟩, h⟩) (found : List Partition) :
    StartsAt p n (FetchTrace.perform SharedBroker.client ⟨⟨l, f, w⟩, h⟩ (.add .earliest found)) where
  resolved m hm := a.resolved m (by simpa [FetchTrace.perform, FetchRun.perform] using hm)
  recording := a.recording
  position m hm hrecords := a.position m hm (by
    rwa [← FetchHistory.recordsFrom_append_of_quiet h (e := .added found .earliest) (by simp)])
  committed ho := by
    apply a.committed
    rcases Option.or_eq_some_iff.mp
      ((OffsetState.get?_addPartitions f.offsets .earliest found p).symm.trans ho) with ho | ⟨-, ho⟩
    · exact ho
    · split at ho <;> cases ho

theorem copied (a : StartsAt p n ⟨⟨l, f, w⟩, h⟩) :
    StartsAt p n (FetchTrace.perform SharedBroker.client ⟨⟨l, f, w⟩, h⟩ .copy) where
  resolved m hm := a.resolved m (by simpa [FetchTrace.perform, FetchRun.perform] using hm)
  recording := a.recording
  position m hm hrecords := a.position m hm (by
    rwa [← FetchHistory.recordsFrom_append_of_quiet h (e := .copied f.offsets) (by simp)])
  committed := a.committed

theorem cancelled (a : StartsAt p n t) : StartsAt p n { t with run := t.run.cancel } :=
  ⟨a.resolved, a.recording, a.position, a.committed⟩

theorem inWorld (a : StartsAt p n t)
    (hw : t.run.fetcher.offsets.get? p = some .groupCommitted →
      w.broker.committed.get? p = t.run.world.broker.committed.get? p) : (t.inWorld w).StartsAt p n :=
  ⟨a.resolved, a.recording, a.position, fun ho => (hw ho).trans (a.committed ho)⟩

/-- No copy has an offset of a partition that was not read yet, so that no commit moves its start. -/
theorem committing (a : StartsAt p n t) (c : t.Consistent s) (hs : s.ComesWith p last)
    {copied : OffsetState} {positions : OffsetMap} (hc : .copied copied ∈ t.history)
    (hp : Fetcher.positionsAfter copied.concreteOffsets = .ok positions) :
    (t.inWorld (SharedBroker.client.commit positions t.run.world).2).StartsAt p n := by
  apply a.inWorld
  intro ho
  obtain ⟨hrecords, hresolutions, horigin⟩ := unread c hs ho
  -- Every copy was made before the first record and before anything was resolved.
  have hnone : positions.get? p = none := by
    obtain ⟨before, after, hsplit⟩ := List.append_of_mem hc
    rw [hsplit, FetchHistory.recordsFrom_append, List.append_eq_nil_iff] at hrecords
    rw [hsplit, FetchHistory.resolutions_append, List.append_eq_nil_iff] at hresolutions
    have hcopy := c.copies before copied after hsplit p
    rw [FetchHistory.entry, hrecords.1, hresolutions.1, hs.origin, horigin] at hcopy
    apply Option.eq_none_iff_forall_ne_some.mpr
    intro m hm
    obtain ⟨x, hx, -⟩ := (Fetcher.get?_positionsAfter_iff hp).mp hm
    cases hcopy.symm.trans hx
  have hsame : ((t.run.world.turn.broker.commit positions).2.committed).get? p =
      t.run.world.turn.broker.committed.get? p := by
    unfold MemoryBroker.commit
    split
    · rfl
    · rw [SortedMap.get?_union, hnone, Option.none_or]
  exact hsame.trans (congrArg (SortedMap.get? · p) t.run.world.turn_grows.committed)

theorem begin (settings : FetchSettings) (hw : w.broker.committed.get? p = some n) :
    (FetchTrace.begin { settings := settings, offsets := s } w).StartsAt p n :=
  ⟨nofun, nofun, nofun, fun _ => hw⟩

/-- When the loop comes to the partition and the broker knows it, it gets the start as its position, or
this is what is to be recorded for it. -/
theorem positioned (a : StartsAt p n ⟨⟨l, f, w⟩, h⟩) (c : Consistent s ⟨⟨l, f, w⟩, h⟩)
    (hs : s.ComesWith p last) (hn : Position.after? last = some n) (hrecords : h.recordsFrom p = [])
    {round todo : List Partition} (hl : l.stage = .positioning round (p :: todo))
    (hp : l.positions.contains p = false) (hlog : (w.turn.broker.log? p).isSome = true) {now : Nat}
    {r : Option Record} (hstep : l.Step SharedBroker.client now f w l' f' w' r) :
    l'.positions.get? p = some n ∨ l'.stage = .recording round todo p n := by
  have hnext := a.of_step c hs hn hstep
  have hsame {round' todo' : List Partition} {q : Partition}
      (hq : l.stage = .positioning round' (q :: todo')) :
      round' = round ∧ q = p ∧ todo' = todo := by
    obtain ⟨rfl, hcons⟩ := FetchStage.positioning.inj (hq.symm.trans hl)
    exact ⟨rfl, List.cons.inj hcons⟩
  cases hstep with
  | known h' hknown =>
    obtain ⟨-, rfl, -⟩ := hsame h'
    cases hknown.symm.trans hp
  | untracked h' _ ho =>
    obtain ⟨-, rfl, -⟩ := hsame h'
    rcases a.offset_of_unread c hs hn hrecords with hoffset | ⟨-, hoffset⟩
    · cases hoffset.symm.trans ho
    · cases hoffset.symm.trans ho
  | @positioned _ _ _ x m h' _ ho hafter =>
    obtain ⟨-, rfl, -⟩ := hsame h'
    obtain rfl := a.eq_last_of_unread c hs hn hrecords ho
    obtain rfl := Option.some.inj (hafter.symm.trans hn)
    exact Or.inl (SortedMap.get?_insert_self ..)
  | overflowed h' _ ho hafter =>
    obtain ⟨-, rfl, -⟩ := hsame h'
    obtain rfl := a.eq_last_of_unread c hs hn hrecords ho
    cases hn.symm.trans hafter
  | @unresolved _ _ _ o e _ h' _ _ _ hr =>
    obtain ⟨-, rfl, -⟩ := hsame h'
    -- The broker resolves every offset of a partition that it knows.
    obtain ⟨m, hm⟩ := MemoryBroker.exists_resolve hlog o
    have herror : (w.turn.broker.resolve _ o).1 = .error e := congrArg Prod.fst hr
    cases hm.symm.trans herror
  | @resolved _ _ _ _ m _ h' =>
    obtain ⟨rfl, rfl, rfl⟩ := hsame h'
    rw [hnext.recording _ _ m rfl]
    exact Or.inr rfl
  | begun h' => rcases h' with h' | ⟨_, h'⟩ <;> cases hl.symm.trans h'
  | polled h' | recorded h' | settled h' | delivered h' | skipped h' | dropped h' | emitted h'
  | ended h' => cases hl.symm.trans h'

end FetchTrace.StartsAt

end CheckpointedLog
