import CheckpointedLog.Checkpoint.PendingHistory
import CheckpointedLog.Proofs.Checkpoint.Pending
import Mathlib.Data.List.Sort

namespace CheckpointedLog

namespace PendingCheckpoints

variable {pending : PendingCheckpoints} {id other : UInt64} {offsets : OffsetMap}

theorem mem_ids_iff : id ∈ pending.ids ↔ ∃ offsets, pending.get? id = some offsets := by
  rw [ids, SortedMap.mem_keys_iff, SortedMap.contains_eq_true_iff]

theorem ids_pairwise (pending : PendingCheckpoints) : pending.ids.Pairwise (· < ·) := by
  apply List.pairwise_map.mpr
  exact pending.ascending.imp Std.compare_eq_lt.mp

theorem ids_evict (entries : PendingCheckpoints) : (evict entries).ids = entries.ids.rtake limit := by
  change (entries.entries.drop (entries.size - limit)).map (·.1) = _
  rw [List.map_drop, List.rtake, ids, SortedMap.keys, List.length_map]
  rfl

theorem length_ids_remember (pending : PendingCheckpoints) (id : UInt64) (offsets : OffsetMap) :
    (pending.remember id offsets).ids.length ≤ limit := by
  rw [remember, ids_evict, List.rtake, List.length_drop]
  omega

theorem complete_of_not_mem (h : id ∉ pending.ids) : pending.complete id = (none, pending) := by
  have hnone : pending.get? id = none := by
    apply Option.eq_none_iff_forall_ne_some.mpr
    intro offsets hoffsets
    exact h (mem_ids_iff.mpr ⟨offsets, hoffsets⟩)
  rw [complete, hnone]

theorem complete_of_get? (h : pending.get? id = some offsets) :
    pending.complete id = (some offsets, pending.filter fun other _ => id < other) := by
  rw [complete, h]

theorem isSome_complete_iff : (pending.complete id).1.isSome = true ↔ id ∈ pending.ids := by
  rw [(complete_cases pending id).1, mem_ids_iff, Option.isSome_iff_exists]

theorem ids_filter (pending : PendingCheckpoints) (keeps : UInt64 → Bool) :
    ids (pending.filter fun other _ => keeps other) = pending.ids.filter keeps := by
  change (pending.entries.filter fun e => keeps e.1).map (·.1) = (pending.entries.map (·.1)).filter keeps
  rw [List.filter_map]
  rfl

theorem ids_insert (h : ∀ other ∈ pending.ids, other < id) (offsets : OffsetMap) :
    ids (pending.insert id offsets) = pending.ids ++ [id] := by
  have hmem (other : UInt64) :
      other ∈ ids (pending.insert id offsets) ↔ other ∈ pending.ids ++ [id] := by
    rw [ids, SortedMap.mem_keys_iff, SortedMap.contains_insert, Bool.or_eq_true, decide_eq_true_eq,
      ← SortedMap.mem_keys_iff, List.mem_append, List.mem_singleton, or_comm]
    rfl
  have hpairwise : (pending.ids ++ [id]).Pairwise (· < ·) := by
    apply List.pairwise_append.mpr
    refine ⟨pending.ids_pairwise, List.pairwise_singleton _ _, ?_⟩
    intro other hother last hlast
    rw [List.mem_singleton.mp hlast]
    exact h other hother
  -- Both lists ascend, so that their members decide.
  exact (ids_pairwise _).eq_of_mem_iff hpairwise hmem

end PendingCheckpoints

namespace PendingHistory

section

variable {α : Type} {l : List α} {n : Nat}

theorem rtake_rtake_concat (l : List α) (x : α) (n : Nat) :
    (l.rtake n ++ [x]).rtake n = (l ++ [x]).rtake n := by
  cases n with
  | zero => rw [List.rtake_zero, List.rtake_zero]
  | succ n =>
    rw [List.rtake_concat_succ, List.rtake_concat_succ]
    simp [List.rtake_eq_reverse_take_reverse, List.take_take]

/-- Where what is kept is an end of the list, it does not matter whether the list is cut first. -/
theorem filter_rtake {keeps : α → Bool}
    (h : l.Pairwise fun a b => keeps a = true → keeps b = true) (n : Nat) :
    (l.rtake n).filter keeps = (l.filter keeps).rtake n := by
  induction l with
  | nil => rw [List.rtake_nil, List.filter_nil, List.rtake_nil]
  | cons x l ih =>
    obtain ⟨hx, hl⟩ := List.pairwise_cons.mp h
    cases hkept : keeps x with
    | true =>
      -- Everything is kept.
      have hall : ∀ y ∈ x :: l, keeps y = true := by
        intro y hy
        rcases List.mem_cons.mp hy with rfl | hy
        · exact hkept
        · exact hx y hy hkept
      rw [List.filter_eq_self.mpr hall, List.filter_eq_self.mpr]
      intro y hy
      exact hall y (List.mem_of_mem_drop hy)
    | false =>
      rw [List.filter_cons_of_neg (by simp [hkept])]
      by_cases hn : n ≤ l.length
      · have hdrop : (x :: l).rtake n = l.rtake n := by
          rw [List.rtake, List.length_cons, Nat.succ_sub hn, List.drop_succ_cons, List.rtake]
        rw [hdrop, ih hl]
      · -- The list is too short to be cut.
        have hlength : (l.filter keeps).length ≤ l.length := List.length_filter_le keeps l
        have hwhole : (x :: l).length - n = 0 := by
          rw [List.length_cons]
          omega
        have hkeptWhole : (l.filter keeps).length - n = 0 := by omega
        rw [List.rtake, hwhole, List.rtake, hkeptWhole, List.drop_zero, List.drop_zero,
          List.filter_cons_of_neg (by simp [hkept])]

end

/-- What the history says about the snapshots that wait. -/
structure Told (h : PendingHistory) : Prop where
  within : h.pending.ids.length ≤ PendingCheckpoints.limit
  latest : ∀ {id offsets}, h.pending.get? id = some offsets → h.latest? id = some offsets
  completed : ∀ {id}, id ∈ h.completed → id ∈ h.rememberedIds
  awaited : h.rememberedIds.Pairwise (· < ·) → h.pending.ids = h.awaited

theorem told_empty : Told {} where
  within := Nat.zero_le _
  latest h := by cases h
  completed h := by cases h
  awaited _ := rfl

theorem latest?_remember (h : PendingHistory) (id other : UInt64) (offsets : OffsetMap) :
    (h.perform (.remember id offsets)).latest? other =
      if other = id then some offsets else h.latest? other := by
  change (h.remembered ++ [(id, offsets)]).reverse.lookup other = _
  rw [List.reverse_append, List.reverse_singleton, List.singleton_append, List.lookup_cons]
  by_cases hid : other = id
  · rw [if_pos hid, beq_iff_eq.mpr hid]
  · rw [if_neg hid, beq_eq_false_iff_ne.mpr hid]
    rfl

theorem rememberedIds_remember (h : PendingHistory) (id : UInt64) (offsets : OffsetMap) :
    (h.perform (.remember id offsets)).rememberedIds = h.rememberedIds ++ [id] :=
  List.map_append

theorem mem_rememberedIds {h : PendingHistory} {id : UInt64} {offsets : OffsetMap}
    (hid : h.latest? id = some offsets) : id ∈ h.rememberedIds := by
  obtain ⟨before, after, hsplit, -⟩ := List.lookup_eq_some_iff.mp hid
  have hmem : (id, offsets) ∈ h.remembered := by
    apply List.mem_reverse.mp
    rw [hsplit]
    exact List.mem_append_right before (List.mem_cons_self ..)
  exact List.mem_map_of_mem hmem

theorem outlasts_mono {h : PendingHistory} {id other : UInt64} (hlt : id < other)
    (hid : h.outlasts id = true) : h.outlasts other = true := by
  apply List.all_eq_true.mpr
  intro done hdone
  have hdoneLt : done < id := of_decide_eq_true (List.all_eq_true.mp hid done hdone)
  exact decide_eq_true (UInt64.lt_trans hdoneLt hlt)

namespace Told

variable {h : PendingHistory}

theorem remember (ht : h.Told) (id : UInt64) (offsets : OffsetMap) :
    (h.perform (.remember id offsets)).Told where
  within := PendingCheckpoints.length_ids_remember h.pending id offsets
  latest {other kept} hkept := by
    rw [latest?_remember]
    rcases PendingCheckpoints.get?_remember hkept with ⟨rfl, rfl⟩ | ⟨hne, hkept⟩
    · exact if_pos rfl
    · rw [if_neg hne, ht.latest hkept]
  completed {done} hdone := by
    rw [rememberedIds_remember]
    exact List.mem_append_left _ (ht.completed hdone)
  awaited hascending := by
    rw [rememberedIds_remember] at hascending
    have hlast : ∀ other ∈ h.rememberedIds, other < id := fun other hother =>
      (List.pairwise_append.mp hascending).2.2 other hother id (List.mem_singleton_self id)
    have hids := ht.awaited (List.pairwise_append.mp hascending).1
    have hpending : ∀ other ∈ h.pending.ids, other < id := by
      intro other hother
      rw [hids] at hother
      exact hlast other (List.mem_of_mem_drop (List.mem_filter.mp hother).1)
    -- Everything that was completed is before the new id.
    have hid : h.outlasts id = true := by
      apply List.all_eq_true.mpr
      intro done hdone
      exact decide_eq_true (hlast done (ht.completed hdone))
    have hcut : (h.rememberedIds.rtake PendingCheckpoints.limit ++ [id]).Pairwise fun a b =>
        h.outlasts a = true → h.outlasts b = true :=
      (hascending.sublist ((List.drop_sublist _ _).append_right [id])).imp outlasts_mono
    calc (h.pending.remember id offsets).ids
        = (h.awaited ++ [id]).rtake PendingCheckpoints.limit := by
          rw [PendingCheckpoints.remember, PendingCheckpoints.ids_evict,
            PendingCheckpoints.ids_insert hpending, hids]
      _ = ((h.rememberedIds.rtake PendingCheckpoints.limit ++ [id]).filter h.outlasts).rtake
            PendingCheckpoints.limit := by
          rw [List.filter_append, List.filter_singleton, hid]
          rfl
      _ = ((h.rememberedIds ++ [id]).rtake PendingCheckpoints.limit).filter h.outlasts := by
          rw [← filter_rtake hcut, rtake_rtake_concat]
      _ = (h.perform (.remember id offsets)).awaited := by
          rw [← rememberedIds_remember h id offsets]
          rfl

theorem complete (ht : h.Told) (id : UInt64) : (h.perform (.complete id)).Told := by
  by_cases hid : id ∈ h.pending.ids
  case neg =>
    -- Nobody waits for this checkpoint, so that nothing changes.
    have hsame : h.perform (.complete id) = h := by
      rw [perform, PendingCheckpoints.complete_of_not_mem hid]
      rfl
    rwa [hsame]
  obtain ⟨offsets, hoffsets⟩ := PendingCheckpoints.mem_ids_iff.mp hid
  have hperform : h.perform (.complete id) = { h with
      pending := h.pending.filter fun other _ => id < other
      completed := h.completed ++ [id] } := by
    rw [perform, PendingCheckpoints.complete_of_get? hoffsets]
    rfl
  have hids := PendingCheckpoints.ids_filter h.pending fun other => id < other
  rw [hperform]
  constructor
  case within =>
    change (PendingCheckpoints.ids (h.pending.filter _)).length ≤ _
    rw [hids]
    exact (List.length_filter_le _ _).trans ht.within
  case latest =>
    intro other kept hkept
    rw [SortedMap.get?_filter] at hkept
    exact ht.latest (Option.filter_eq_some_iff.mp hkept).1
  case completed =>
    intro done hdone
    rcases List.mem_append.mp hdone with hdone | hdone
    · exact ht.completed hdone
    · rw [List.mem_singleton.mp hdone]
      exact mem_rememberedIds (ht.latest hoffsets)
  case awaited =>
    intro hascending
    have houtlasts (other : UInt64) : ((h.completed ++ [id]).all fun done => done < other) =
        (decide (id < other) && h.outlasts other) := by
      rw [List.all_append, List.all_cons, List.all_nil, Bool.and_true, Bool.and_comm]
      rfl
    calc PendingCheckpoints.ids (h.pending.filter fun other _ => id < other)
        = h.awaited.filter fun other => id < other := by
          rw [hids, ht.awaited hascending]
      _ = (h.rememberedIds.rtake PendingCheckpoints.limit).filter fun other =>
            (h.completed ++ [id]).all fun done => done < other := by
          rw [PendingHistory.awaited, List.filter_filter]
          simp only [houtlasts]

theorem perform (ht : h.Told) : ∀ a : PendingAction, (h.perform a).Told
  | .remember id offsets => ht.remember id offsets
  | .complete id => ht.complete id

theorem performAll (ht : h.Told) (actions : List PendingAction) : (h.performAll actions).Told := by
  induction actions generalizing h with
  | nil => exact ht
  | cons a actions ih => exact ih (ht.perform a)

end Told

/-- After anything that was done with the waiting snapshots, in whatever order: no more of them wait than
may. Completing a checkpoint whose snapshot does not wait changes nothing. Completing one whose snapshot
waits gives the offsets that were remembered last under its id, and exactly the snapshots with greater ids
go on waiting. As long as the ids were remembered in ascending order, exactly those of the last ids wait,
and are given, that are greater than all ids whose completion gave offsets. -/
theorem pending_follows_history (actions : List PendingAction) :
    let h := performAll {} actions
    h.pending.ids.length ≤ 100 ∧
      (∀ id, id ∉ h.pending.ids → h.pending.complete id = (none, h.pending)) ∧
      (∀ id, id ∈ h.pending.ids → ∃ offsets left, h.latest? id = some offsets ∧
        h.pending.complete id = (some offsets, left) ∧ left.ids = h.pending.ids.filter (id < ·) ∧
        ∀ other, id < other → left.get? other = h.pending.get? other) ∧
      (h.rememberedIds.Pairwise (· < ·) →
        h.pending.ids =
          (h.rememberedIds.rtake 100).filter (fun id => h.completed.all (· < id)) ∧
        ∀ id, (h.pending.complete id).1.isSome = true ↔
          id ∈ h.rememberedIds.rtake 100 ∧ ∀ done ∈ h.completed, done < id) := by
  intro h
  have ht : h.Told := told_empty.performAll actions
  refine ⟨ht.within, fun id hid => PendingCheckpoints.complete_of_not_mem hid, ?_, ?_⟩
  · intro id hid
    obtain ⟨offsets, hoffsets⟩ := PendingCheckpoints.mem_ids_iff.mp hid
    refine ⟨offsets, _, ht.latest hoffsets, PendingCheckpoints.complete_of_get? hoffsets,
      PendingCheckpoints.ids_filter h.pending fun other => id < other, ?_⟩
    intro other hother
    rw [SortedMap.get?_filter]
    cases h.pending.get? other with
    | none => rfl
    | some kept => exact Option.filter_some_pos (decide_eq_true hother)
  · intro hascending
    have hids := ht.awaited hascending
    refine ⟨hids, fun id => ?_⟩
    rw [PendingCheckpoints.isSome_complete_iff, hids, awaited, List.mem_filter, outlasts,
      List.all_eq_true]
    simp only [decide_eq_true_eq]
    rfl

/-- Of four snapshots the second one is completed, which drops the first; then a checkpoint without a
snapshot is completed, and a fifth snapshot is remembered. -/
theorem pending_follows_history_between_ids :
    let o : OffsetMap := .empty
    let actions : List PendingAction := [.remember 1 o, .remember 2 o, .remember 4 o, .remember 5 o,
      .complete 2, .complete 3, .remember 8 o]
    let h := performAll {} actions
    h.rememberedIds.Pairwise (· < ·) ∧ h.completed = [2] ∧ 3 ∉ h.pending.ids ∧
      h.pending.complete 3 = (none, h.pending) ∧ 5 ∈ h.pending.ids ∧
      (∃ left, h.pending.complete 5 = (some o, left) ∧ left.ids = [8]) ∧
      h.pending.ids = (h.rememberedIds.rtake 100).filter (fun id => h.completed.all (· < id)) := by
  intro o actions h
  obtain ⟨-, hunknown, hknown, hascending⟩ := pending_follows_history actions
  have horder : h.rememberedIds.Pairwise (· < ·) := by decide +kernel
  have hthird : 3 ∉ h.pending.ids := by decide +kernel
  have hfifth : 5 ∈ h.pending.ids := by decide +kernel
  refine ⟨horder, by decide +kernel, hthird, hunknown 3 hthird, hfifth, ?_, (hascending horder).1⟩
  obtain ⟨offsets, left, hlatest, hcomplete, hleft, -⟩ := hknown 5 hfifth
  have hoffsets : h.latest? 5 = some o := by decide +kernel
  obtain rfl := Option.some.inj (hlatest.symm.trans hoffsets)
  refine ⟨left, hcomplete, hleft.trans ?_⟩
  decide +kernel

end PendingHistory

end CheckpointedLog
