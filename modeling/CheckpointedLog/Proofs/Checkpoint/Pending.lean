import CheckpointedLog.Checkpoint.Pending
import CheckpointedLog.Proofs.SortedMap

namespace CheckpointedLog.PendingCheckpoints

variable {pending : PendingCheckpoints} {id other : UInt64} {new offsets : OffsetMap}

theorem get?_evict {entries : PendingCheckpoints} (h : (evict entries).get? id = some offsets) :
    entries.get? id = some offsets := by
  rw [SortedMap.get?_eq_some_iff] at h ⊢
  exact List.mem_of_mem_drop h

/-- What is remembered after a snapshot was remembered before, unless it is the new one. -/
theorem get?_remember (h : (pending.remember id new).get? other = some offsets) :
    (other = id ∧ offsets = new) ∨ (other ≠ id ∧ pending.get? other = some offsets) :=
  (SortedMap.of_get?_insert (get?_evict h)).imp_left fun ⟨hid, hnew⟩ => ⟨hid, hnew.symm⟩

/-- Completing a checkpoint takes out its offsets, and brings in nothing. -/
theorem complete_cases (pending : PendingCheckpoints) (id : UInt64) :
    (pending.complete id).1 = pending.get? id ∧
      (pending.complete id).2.get? id = none ∧ ∀ other offsets,
        (pending.complete id).2.get? other = some offsets → pending.get? other = some offsets := by
  unfold complete
  cases hid : pending.get? id with
  | none => exact ⟨rfl, hid, fun _ _ h => h⟩
  | some offsets =>
    refine ⟨rfl, ?_, fun other kept h => ?_⟩
    · rw [SortedMap.get?_filter, Option.filter_eq_none_iff]
      exact fun _ _ h => UInt64.lt_irrefl id (of_decide_eq_true h)
    · rw [SortedMap.get?_filter] at h
      exact (Option.filter_eq_some_iff.mp h).1

/-- The offsets of the waiting snapshots, by ascending ids. -/
def waiting (pending : PendingCheckpoints) : List OffsetMap := pending.entries.map (·.2)

theorem entries_evict_sublist (pending : PendingCheckpoints) :
    (evict pending).entries.Sublist pending.entries :=
  List.drop_sublist _ _

theorem mem_ids_remember (h : other ∈ (pending.remember id offsets).ids) :
    other = id ∨ other ∈ pending.ids := by
  obtain ⟨e, he, rfl⟩ := List.mem_map.mp h
  have hinserted := (entries_evict_sublist _).subset he
  rcases (SortedMap.mem_insertEntry_iff pending.ascending).mp hinserted with rfl | ⟨hmem, -⟩
  · exact Or.inl rfl
  · exact Or.inr (List.mem_map_of_mem hmem)

/-- A snapshot with an id that is not smaller than the others goes to the end. -/
theorem waiting_remember_sublist (h : ∀ other ∈ pending.ids, other ≤ id) (offsets : OffsetMap) :
    (pending.remember id offsets).waiting.Sublist (pending.waiting ++ [offsets]) := by
  have hlast : ∀ e ∈ pending.entries, compare id e.1 ≠ .lt := by
    intro e he hlt
    have hle := h e.1 (List.mem_map_of_mem he)
    exact UInt64.not_le.mpr (Std.compare_eq_lt.mp hlt) hle
  have hinserted := SortedMap.entries_insert_sublist offsets hlast
  have hsublist := ((entries_evict_sublist _).trans hinserted).map (·.2)
  rwa [List.map_append] at hsublist

/-- The snapshot of a completed checkpoint comes before those that are left. -/
theorem cons_waiting_complete_sublist (h : pending.get? id = some offsets) :
    (offsets :: (pending.complete id).2.waiting).Sublist pending.waiting := by
  have hafter : ∀ (other : UInt64) (_ : OffsetMap), decide (id < other) = true →
      compare id other = .lt := by
    intro other _ hlt
    exact Std.compare_eq_lt.mpr (of_decide_eq_true hlt)
  have hsublist := (SortedMap.cons_filter_sublist h hafter).map (·.2)
  rw [complete, h]
  exact hsublist

theorem entries_complete_sublist (pending : PendingCheckpoints) (id : UInt64) :
    (pending.complete id).2.entries.Sublist pending.entries := by
  unfold complete
  split
  · exact List.Sublist.refl _
  · exact List.filter_sublist

end CheckpointedLog.PendingCheckpoints
