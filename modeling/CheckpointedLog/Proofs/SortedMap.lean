import CheckpointedLog.Partition

namespace CheckpointedLog.SortedMap

variable {κ α β : Type} [Ord κ]

@[simp]
theorem get?_empty (k : κ) : (empty : SortedMap κ α).get? k = none := rfl

theorem contains_eq_true_iff {m : SortedMap κ α} {k : κ} :
    m.contains k = true ↔ ∃ a, m.get? k = some a := by
  rw [contains, Option.isSome_iff_exists]

theorem contains_eq_false_iff {m : SortedMap κ α} {k : κ} :
    m.contains k = false ↔ m.get? k = none := by
  rw [contains, Option.isSome_eq_false_iff, Option.isNone_iff_eq_none]

theorem mem_keys_iff [Std.LawfulEqOrd κ] {m : SortedMap κ α} {k : κ} :
    k ∈ m.keys ↔ m.contains k = true := by
  rw [keys, List.mem_map, contains_eq_true_iff]
  constructor
  · rintro ⟨⟨j, a⟩, hmem, rfl⟩
    exact ⟨a, get?_eq_some_iff.mpr hmem⟩
  · rintro ⟨a, ha⟩
    exact ⟨(k, a), get?_eq_some_iff.mp ha, rfl⟩

theorem ne_of_compare_lt [Std.ReflOrd κ] {i j : κ} (h : compare i j = .lt) : i ≠ j := by
  rintro rfl
  rw [Std.ReflOrd.compare_self] at h
  cases h

theorem nodup_keys [Std.ReflOrd κ] (m : SortedMap κ α) : (m.entries.map (·.1)).Nodup :=
  List.pairwise_map.mpr (m.ascending.imp ne_of_compare_lt)

theorem isEmpty_eq_false_iff [Std.LawfulEqOrd κ] {m : SortedMap κ α} :
    m.isEmpty = false ↔ ∃ k a, m.get? k = some a := by
  rw [isEmpty, List.isEmpty_eq_false_iff_exists_mem]
  constructor
  · rintro ⟨e, he⟩
    exact ⟨e.1, e.2, get?_eq_some_iff.mpr he⟩
  · rintro ⟨k, a, h⟩
    exact ⟨(k, a), get?_eq_some_iff.mp h⟩

section Insertion

variable [Std.TransOrd κ] [Std.LawfulEqOrd κ]

/-- An insertion into an ascending list keeps the entries of all other keys. -/
theorem mem_insertEntry_iff {k : κ} {a : α} {l : List (κ × α)} {e : κ × α}
    (h : l.Pairwise fun a b => compare a.1 b.1 = .lt) :
    e ∈ insertEntry k a l ↔ e = (k, a) ∨ (e ∈ l ∧ e.1 ≠ k) := by
  induction l with
  | nil => simp [insertEntry]
  | cons x l ih =>
    obtain ⟨hx, hl⟩ := List.pairwise_cons.mp h
    rw [insertEntry]
    split
    next hc =>
      -- The new key comes first, so no later entry has it.
      have hne : ∀ y ∈ x :: l, y.1 ≠ k := by
        intro y hy
        rcases List.mem_cons.mp hy with rfl | hy
        · exact (ne_of_compare_lt hc).symm
        · exact (ne_of_compare_lt (Std.TransCmp.lt_trans hc (hx y hy))).symm
      rw [List.mem_cons]
      exact or_congr_right ⟨fun he => ⟨he, hne e he⟩, And.left⟩
    next hc =>
      have hk : k = x.1 := Std.LawfulEqOrd.eq_of_compare hc
      have hne : ∀ y ∈ l, y.1 ≠ k := fun y hy => hk ▸ (ne_of_compare_lt (hx y hy)).symm
      rw [List.mem_cons, List.mem_cons]
      refine or_congr_right ⟨fun he => ⟨Or.inr he, hne e he⟩, ?_⟩
      rintro ⟨rfl | he, hek⟩
      · exact absurd hk.symm hek
      · exact he
    next hc =>
      have hxk : x.1 ≠ k := ne_of_compare_lt (Std.OrientedCmp.lt_of_gt hc)
      rw [List.mem_cons, List.mem_cons, show e ∈ insertEntry k a l ↔ _ from ih hl]
      constructor
      · rintro (rfl | rfl | ⟨he, hek⟩)
        · exact Or.inr ⟨Or.inl rfl, hxk⟩
        · exact Or.inl rfl
        · exact Or.inr ⟨Or.inr he, hek⟩
      · rintro (rfl | ⟨rfl | he, hek⟩)
        · exact Or.inr (Or.inl rfl)
        · exact Or.inl rfl
        · exact Or.inr (Or.inr ⟨he, hek⟩)

theorem get?_insert_self (m : SortedMap κ α) (k : κ) (a : α) : (m.insert k a).get? k = some a :=
  get?_eq_some_iff.mpr ((mem_insertEntry_iff m.ascending).mpr (Or.inl rfl))

theorem get?_insert_of_ne (m : SortedMap κ α) {k j : κ} (a : α) (h : j ≠ k) :
    (m.insert k a).get? j = m.get? j := by
  apply Option.ext
  intro b
  rw [get?_eq_some_iff, get?_eq_some_iff, insert, mem_insertEntry_iff m.ascending]
  constructor
  · rintro (he | ⟨he, _⟩)
    · exact absurd (congrArg Prod.fst he) h
    · exact he
  · exact fun he => Or.inr ⟨he, h⟩

theorem get?_insert [DecidableEq κ] (m : SortedMap κ α) (k j : κ) (a : α) :
    (m.insert k a).get? j = if j = k then some a else m.get? j := by
  split
  · next h => rw [h, get?_insert_self]
  · next h => exact get?_insert_of_ne m a h

/-- An entry after an insertion is the new one or an old one of another key. -/
theorem of_get?_insert [DecidableEq κ] {m : SortedMap κ α} {k j : κ} {a b : α}
    (h : (m.insert k a).get? j = some b) : (j = k ∧ a = b) ∨ (j ≠ k ∧ m.get? j = some b) := by
  rw [get?_insert] at h
  split at h
  next hj => exact Or.inl ⟨hj, Option.some.inj h⟩
  next hj => exact Or.inr ⟨hj, h⟩

theorem contains_insert [DecidableEq κ] (m : SortedMap κ α) (k j : κ) (a : α) :
    (m.insert k a).contains j = (decide (j = k) || m.contains j) := by
  rw [contains, contains, get?_insert]
  by_cases h : j = k <;> simp [h]

theorem get?_foldl_insert {l : List (κ × α)} {m : SortedMap κ α} {k : κ} {a : α}
    (h : (l.foldl (fun m e => m.insert e.1 e.2) m).get? k = some a) :
    (k, a) ∈ l ∨ m.get? k = some a := by
  induction l generalizing m with
  | nil => exact Or.inr h
  | cons e l ih =>
    rcases ih h with hmem | hget
    · exact Or.inl (List.mem_cons_of_mem _ hmem)
    · by_cases hk : k = e.1
      · subst hk
        rw [get?_insert_self] at hget
        obtain rfl := Option.some.inj hget
        exact Or.inl (List.mem_cons_self ..)
      · rw [get?_insert_of_ne _ _ hk] at hget
        exact Or.inr hget

theorem mem_of_get?_ofList {l : List (κ × α)} {k : κ} {a : α}
    (h : (ofList l).get? k = some a) : (k, a) ∈ l :=
  (get?_foldl_insert h).resolve_right (by simp)

theorem contains_foldl_insert {l : List (κ × α)} {m : SortedMap κ α} {k : κ}
    (h : m.contains k = true ∨ ∃ a, (k, a) ∈ l) :
    (l.foldl (fun m e => m.insert e.1 e.2) m).contains k = true := by
  induction l generalizing m with
  | nil => exact h.resolve_right fun ⟨_, ha⟩ => List.not_mem_nil ha
  | cons e l ih =>
    by_cases hk : k = e.1
    · refine ih (Or.inl ?_)
      rw [hk, contains, get?_insert_self]
      rfl
    · refine ih (h.imp (fun hm => ?_) fun ⟨a, ha⟩ => ⟨a, ?_⟩)
      · rw [contains, get?_insert_of_ne _ _ hk]
        exact hm
      · exact (List.mem_cons.mp ha).resolve_left fun he => hk (congrArg Prod.fst he)

theorem get?_foldl_insert_of_not_mem {l : List (κ × α)} {m : SortedMap κ α} {k : κ}
    (h : ∀ a, (k, a) ∉ l) : (l.foldl (fun m e => m.insert e.1 e.2) m).get? k = m.get? k := by
  induction l generalizing m with
  | nil => rfl
  | cons e l ih =>
    have hne : k ≠ e.1 := by
      rintro rfl
      exact h e.2 (List.mem_cons_self ..)
    exact (ih fun a ha => h a (List.mem_cons_of_mem e ha)).trans (get?_insert_of_ne m e.2 hne)

theorem get?_foldl_insert_of_mem {l : List (κ × α)} {m : SortedMap κ α} {k : κ} {a : α}
    (hl : (l.map (·.1)).Nodup) (h : (k, a) ∈ l) :
    (l.foldl (fun m e => m.insert e.1 e.2) m).get? k = some a := by
  induction l generalizing m with
  | nil => cases h
  | cons e l ih =>
    obtain ⟨hnew, hl⟩ := List.nodup_cons.mp hl
    rcases List.mem_cons.mp h with rfl | h
    · -- The key does not come again.
      have hrest : ∀ b, (k, b) ∉ l := fun b hb => hnew (List.mem_map.mpr ⟨(k, b), hb, rfl⟩)
      exact (get?_foldl_insert_of_not_mem hrest).trans (get?_insert_self m k a)
    · exact ih hl h

theorem get?_ofList_iff {l : List (κ × α)} (hl : (l.map (·.1)).Nodup) {k : κ} {a : α} :
    (ofList l).get? k = some a ↔ (k, a) ∈ l :=
  ⟨mem_of_get?_ofList, get?_foldl_insert_of_mem hl⟩

theorem get?_union (m n : SortedMap κ α) (k : κ) :
    (m.union n).get? k = (n.get? k).or (m.get? k) := by
  cases hn : n.get? k with
  | none =>
    apply get?_foldl_insert_of_not_mem
    intro a ha
    cases (get?_eq_some_iff.mpr ha).symm.trans hn
  | some a => exact get?_foldl_insert_of_mem n.nodup_keys (get?_eq_some_iff.mp hn)

theorem get?_ofList_map [DecidableEq κ] (ks : List κ) (f : κ → α) (k : κ) :
    (ofList (ks.map fun j => (j, f j))).get? k = if k ∈ ks then some (f k) else none := by
  have general (m : SortedMap κ α) :
      ((ks.map fun j => (j, f j)).foldl (fun m e => m.insert e.1 e.2) m).get? k =
        if k ∈ ks then some (f k) else m.get? k := by
    induction ks generalizing m with
    | nil => rfl
    | cons j ks ih =>
      rw [List.map_cons, List.foldl_cons, ih, get?_insert]
      by_cases hk : k ∈ ks
      · simp [hk]
      · by_cases hj : k = j
        · simp [hj]
        · simp [hk, hj]
  exact general empty

end Insertion

section Selection

variable [Std.LawfulEqOrd κ]

theorem get?_filter (p : κ → α → Bool) (m : SortedMap κ α) (k : κ) :
    (m.filter p).get? k = (m.get? k).filter (p k) := by
  apply Option.ext
  intro a
  rw [get?_eq_some_iff, filter, List.mem_filter, ← get?_eq_some_iff, Option.filter_eq_some_iff]

theorem get?_filterMap (f : κ → α → Option β) (m : SortedMap κ α) (k : κ) :
    (m.filterMap f).get? k = (m.get? k).bind (f k) := by
  apply Option.ext
  intro b
  rw [get?_eq_some_iff, filterMap, List.mem_filterMap, Option.bind_eq_some_iff]
  constructor
  · rintro ⟨⟨j, a⟩, hmem, hb⟩
    obtain ⟨c, hc, he⟩ := Option.map_eq_some_iff.mp hb
    obtain ⟨rfl, rfl⟩ := Prod.mk.inj he
    exact ⟨a, get?_eq_some_iff.mpr hmem, hc⟩
  · rintro ⟨a, ha, hb⟩
    exact ⟨(k, a), get?_eq_some_iff.mp ha, Option.map_eq_some_iff.mpr ⟨b, hb, rfl⟩⟩

end Selection

/-- An insertion under a key that no other one comes after changes only the end. -/
theorem insertEntry_sublist [Std.TransOrd κ] {k : κ} {a : α} {l : List (κ × α)}
    (h : l.Pairwise fun a b => compare a.1 b.1 = .lt) (hk : ∀ e ∈ l, compare k e.1 ≠ .lt) :
    (insertEntry k a l).Sublist (l ++ [(k, a)]) := by
  induction l with
  | nil => exact List.Sublist.refl _
  | cons x l ih =>
    obtain ⟨hx, hl⟩ := List.pairwise_cons.mp h
    obtain ⟨hkx, hkl⟩ := List.forall_mem_cons.mp hk
    rw [insertEntry]
    split
    next hc => exact absurd hc hkx
    next hc =>
      -- The key is there already, and then its entry is the last one.
      have hnil : l = [] := by
        apply List.eq_nil_iff_forall_not_mem.mpr
        intro y hy
        exact hkl y hy (Std.TransCmp.lt_of_eq_of_lt hc (hx y hy))
      rw [hnil]
      exact List.sublist_cons_self x [(k, a)]
    next hc => exact (ih hl hkl).cons_cons x

theorem entries_insert_sublist [Std.TransOrd κ] {m : SortedMap κ α} {k : κ} (a : α)
    (hk : ∀ e ∈ m.entries, compare k e.1 ≠ .lt) :
    (m.insert k a).entries.Sublist (m.entries ++ [(k, a)]) :=
  insertEntry_sublist m.ascending hk

theorem cons_filter_sublist [Std.TransOrd κ] [Std.LawfulEqOrd κ] {m : SortedMap κ α} {k : κ} {a : α}
    (h : m.get? k = some a) {p : κ → α → Bool} (hp : ∀ j b, p j b = true → compare k j = .lt) :
    ((k, a) :: (m.filter p).entries).Sublist m.entries := by
  rw [get?_eq_some_iff] at h
  obtain ⟨l, hl⟩ := m
  change ((k, a) :: l.filter fun e => p e.1 e.2).Sublist l
  induction l with
  | nil => cases h
  | cons x l ih =>
    obtain ⟨hx, hl⟩ := List.pairwise_cons.mp hl
    rcases List.mem_cons.mp h with rfl | h
    · have hself : p k a = false := by
        apply Bool.eq_false_iff.mpr
        intro hpk
        exact ne_of_compare_lt (hp k a hpk) rfl
      rw [List.filter_cons_of_neg (by simp [hself])]
      exact List.filter_sublist.cons_cons (k, a)
    · -- The first entry comes before the key, so that it is left out.
      have hbefore : p x.1 x.2 = false := by
        apply Bool.eq_false_iff.mpr
        intro hpx
        have hlt : compare x.1 x.1 = .lt := Std.TransCmp.lt_trans (hx (k, a) h) (hp x.1 x.2 hpx)
        exact ne_of_compare_lt hlt rfl
      rw [List.filter_cons_of_neg (by simp [hbefore])]
      exact (ih hl h).cons x

end CheckpointedLog.SortedMap

namespace CheckpointedLog.Partition

@[simp]
theorem mem_ascending {ps : List Partition} {p : Partition} : p ∈ ascending ps ↔ p ∈ ps := by
  rw [ascending, SortedMap.mem_keys_iff, SortedMap.contains_eq_true_iff]
  simp only [SortedMap.get?_ofList_map ps (fun _ => ())]
  by_cases h : p ∈ ps <;> simp [h]

theorem pairwise_ascending (ps : List Partition) :
    (ascending ps).Pairwise fun p q => compare p q = .lt :=
  List.pairwise_map.mpr (SortedMap.ofList (ps.map (·, ()))).ascending

theorem ascending_congr {ps qs : List Partition} (h : ∀ p, p ∈ ps ↔ p ∈ qs) :
    ascending ps = ascending qs := by
  have hmaps : SortedMap.ofList (ps.map (·, ())) = SortedMap.ofList (qs.map (·, ())) := by
    apply SortedMap.ext_get?
    intro p
    rw [SortedMap.get?_ofList_map ps fun _ => (), SortedMap.get?_ofList_map qs fun _ => ()]
    simp only [h p]
  rw [ascending, ascending, hmaps]

end CheckpointedLog.Partition
