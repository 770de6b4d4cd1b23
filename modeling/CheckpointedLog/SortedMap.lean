/-!
Finite maps kept as lists of entries in strictly ascending key order. The order makes the list of a
map canonical: two maps with the same look-ups are the same map (`SortedMap.ext_get?`).
-/
namespace CheckpointedLog

/-- A finite map from `κ` to `α`; the entries ascend strictly by key. -/
structure SortedMap (κ α : Type) [Ord κ] where
  entries : List (κ × α)
  ascending : entries.Pairwise fun a b => compare a.1 b.1 = .lt

namespace SortedMap

variable {κ α β : Type} [Ord κ]

instance [DecidableEq κ] [DecidableEq α] : DecidableEq (SortedMap κ α) := fun m n =>
  if h : m.entries = n.entries then isTrue (by cases m; cases n; simpa using h)
  else isFalse fun e => h (e ▸ rfl)

def empty : SortedMap κ α := ⟨[], .nil⟩

instance : Inhabited (SortedMap κ α) := ⟨empty⟩

def keys (m : SortedMap κ α) : List κ := m.entries.map (·.1)

def size (m : SortedMap κ α) : Nat := m.entries.length

def isEmpty (m : SortedMap κ α) : Bool := m.entries.isEmpty

def get? (m : SortedMap κ α) (k : κ) : Option α :=
  (m.entries.find? fun e => compare k e.1 == .eq).map (·.2)

def contains (m : SortedMap κ α) (k : κ) : Bool := (m.get? k).isSome

/-- Puts `k` at its place in an ascending list, replacing the entry of an equal key. -/
def insertEntry (k : κ) (a : α) : List (κ × α) → List (κ × α)
  | [] => [(k, a)]
  | e :: rest =>
    match compare k e.1 with
    | .lt => (k, a) :: e :: rest
    | .eq => (k, a) :: rest
    | .gt => e :: insertEntry k a rest

/-- Every key of the list after an insertion is the new key or was there. -/
theorem mem_insertEntry {k : κ} {a : α} {l : List (κ × α)} {e : κ × α}
    (h : e ∈ insertEntry k a l) : e = (k, a) ∨ e ∈ l := by
  induction l with
  | nil => simpa [insertEntry] using h
  | cons x l ih =>
    rw [insertEntry] at h
    split at h
    · simpa [List.mem_cons] using h
    · rcases List.mem_cons.mp h with h | h
      · exact Or.inl h
      · exact Or.inr (List.mem_cons_of_mem _ h)
    · rcases List.mem_cons.mp h with h | h
      · exact Or.inr (h ▸ List.mem_cons_self ..)
      · exact (ih h).imp_right (List.mem_cons_of_mem _)

section Ordered

variable [Std.TransOrd κ]

theorem insertEntry_ascending (k : κ) (a : α) {l : List (κ × α)}
    (h : l.Pairwise fun a b => compare a.1 b.1 = .lt) :
    (insertEntry k a l).Pairwise fun a b => compare a.1 b.1 = .lt := by
  induction l with
  | nil => simp [insertEntry]
  | cons x l ih =>
    have hx := List.pairwise_cons.mp h
    rw [insertEntry]
    split
    next hc =>
      refine List.pairwise_cons.mpr ⟨fun y hy => ?_, h⟩
      rcases List.mem_cons.mp hy with hy | hy
      · exact hy ▸ hc
      · exact Std.TransCmp.lt_trans hc (hx.1 y hy)
    next hc =>
      exact List.pairwise_cons.mpr
        ⟨fun y hy => Std.TransCmp.lt_of_eq_of_lt hc (hx.1 y hy), hx.2⟩
    next hc =>
      refine List.pairwise_cons.mpr ⟨fun y hy => ?_, ih hx.2⟩
      rcases mem_insertEntry hy with hy | hy
      · exact hy ▸ Std.OrientedCmp.lt_of_gt hc
      · exact hx.1 y hy

/-- Sets the value under `k`, replacing any earlier one. -/
def insert (m : SortedMap κ α) (k : κ) (a : α) : SortedMap κ α :=
  ⟨insertEntry k a m.entries, insertEntry_ascending k a m.ascending⟩

/-- The map of a list of pairs; of pairs with equal keys the last one counts. -/
def ofList (l : List (κ × α)) : SortedMap κ α :=
  l.foldl (fun m e => m.insert e.1 e.2) empty

/-- Adds all entries of `n`, which win over those of `m`. -/
def union (m n : SortedMap κ α) : SortedMap κ α :=
  n.entries.foldl (fun m e => m.insert e.1 e.2) m

end Ordered

theorem get?_eq_some_iff [Std.LawfulEqOrd κ] {m : SortedMap κ α} {k : κ} {a : α} :
    m.get? k = some a ↔ (k, a) ∈ m.entries := by
  obtain ⟨l, h⟩ := m
  induction l with
  | nil => simp [get?]
  | cons e l ih =>
    obtain ⟨i, b⟩ := e
    obtain ⟨hi, hl⟩ := List.pairwise_cons.mp h
    by_cases hk : k = i
    · subst hk
      have hmem : (k, a) ∉ l := fun ha => by
        have hlt : compare k k = .lt := hi (k, a) ha
        rw [Std.ReflOrd.compare_self] at hlt
        cases hlt
      simp [get?, Std.ReflOrd.compare_self, hmem, eq_comm]
    · have hc : (compare k i == .eq) = false := by
        simpa using fun hc => hk (Std.LawfulEqOrd.eq_of_compare hc)
      simpa [get?, List.find?_cons, hc, hk] using ih hl

/-- Two ascending lists with the same members are equal. -/
theorem eq_of_mem_iff [Std.TransOrd κ] {l l' : List (κ × α)}
    (h : l.Pairwise fun a b => compare a.1 b.1 = .lt)
    (h' : l'.Pairwise fun a b => compare a.1 b.1 = .lt) (hm : ∀ e, e ∈ l ↔ e ∈ l') : l = l' := by
  have irrefl (e : κ × α) : compare e.1 e.1 ≠ .lt := by simp [Std.ReflOrd.compare_self]
  induction l generalizing l' with
  | nil => exact (List.eq_nil_iff_forall_not_mem.mpr fun e he => by simpa using (hm e).mpr he).symm
  | cons x l ih =>
    cases l' with
    | nil => simpa using (hm x).mp (List.mem_cons_self ..)
    | cons y l' =>
      obtain ⟨hx, hl⟩ := List.pairwise_cons.mp h
      obtain ⟨hy, hl'⟩ := List.pairwise_cons.mp h'
      have hxy : x = y := by
        rcases List.mem_cons.mp ((hm x).mp (List.mem_cons_self ..)) with hxy | hxl
        · exact hxy
        rcases List.mem_cons.mp ((hm y).mpr (List.mem_cons_self ..)) with hyx | hyl
        · exact hyx.symm
        exact absurd (Std.TransCmp.lt_trans (hx y hyl) (hy x hxl)) (irrefl x)
      subst hxy
      refine congrArg (x :: ·) (ih hl hl' fun e => ⟨fun he => ?_, fun he => ?_⟩)
      · refine (List.mem_cons.mp ((hm e).mp (List.mem_cons_of_mem _ he))).resolve_left fun hex => ?_
        exact irrefl x (hex ▸ hx e he)
      · refine (List.mem_cons.mp ((hm e).mpr (List.mem_cons_of_mem _ he))).resolve_left fun hex => ?_
        exact irrefl x (hex ▸ hy e he)

theorem ext_get? [Std.TransOrd κ] [Std.LawfulEqOrd κ] {m n : SortedMap κ α}
    (h : ∀ k, m.get? k = n.get? k) : m = n := by
  have he : m.entries = n.entries :=
    eq_of_mem_iff m.ascending n.ascending fun e => by
      rw [← get?_eq_some_iff, ← get?_eq_some_iff, h]
  cases m; cases n; simpa using he

/-- Keeps the entries that satisfy `p`. -/
def filter (p : κ → α → Bool) (m : SortedMap κ α) : SortedMap κ α :=
  ⟨m.entries.filter fun e => p e.1 e.2, m.ascending.sublist List.filter_sublist⟩

/-- Maps the values, dropping the entries for which there is none. -/
def filterMap (f : κ → α → Option β) (m : SortedMap κ α) : SortedMap κ β :=
  ⟨m.entries.filterMap fun e => (f e.1 e.2).map (e.1, ·), by
    refine List.Pairwise.filterMap _ (fun a b hab x hx y hy => ?_) m.ascending
    obtain ⟨_, _, rfl⟩ := Option.map_eq_some_iff.mp hx
    obtain ⟨_, _, rfl⟩ := Option.map_eq_some_iff.mp hy
    exact hab⟩

end SortedMap

end CheckpointedLog
