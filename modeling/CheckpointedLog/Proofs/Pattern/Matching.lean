import CheckpointedLog.Pattern.Written
import Mathlib.Order.Basic
import Mathlib.Order.Nat

namespace CheckpointedLog.Regex

variable {i j k m n : Nat}

section Places

variable {step : Nat → List Nat} {places : List Nat}

theorem mem_merge {more : List Nat} : j ∈ merge places more ↔ j ∈ places ∨ j ∈ more := by
  induction more generalizing places with
  | nil => simp [merge]
  | cons k more ih =>
    have hstep : merge places (k :: more) =
        merge (if places.contains k then places else k :: places) more := rfl
    rw [hstep, ih, List.mem_cons, ← or_assoc]
    split
    next hk =>
      have hk : k ∈ places := List.contains_iff_mem.mp hk
      grind
    next => grind

theorem mem_advance : j ∈ advance step places ↔ ∃ i ∈ places, j ∈ step i := by
  have hfold (found : List Nat) : j ∈ places.foldl (fun found i => merge found (step i)) found ↔
      j ∈ found ∨ ∃ i ∈ places, j ∈ step i := by
    induction places generalizing found with
    | nil => simp
    | cons i places ih =>
      rw [List.foldl_cons, ih, mem_merge]
      simp only [List.mem_cons]
      grind
  have hall := hfold []
  simp only [List.not_mem_nil, false_or] at hall
  exact hall

theorem chain_zero {R : Nat → Nat → Prop} : Chain R 0 i j ↔ i = j := by
  constructor
  · rintro ⟨⟩
    rfl
  · rintro rfl
    exact .nil i

theorem chain_succ {R : Nat → Nat → Prop} : Chain R (n + 1) i j ↔ ∃ k, R i k ∧ Chain R n k j := by
  constructor
  · rintro (_ | ⟨hfirst, hothers⟩)
    exact ⟨_, hfirst, hothers⟩
  · rintro ⟨k, hfirst, hothers⟩
    exact .cons hfirst hothers

theorem mem_exactly :
    j ∈ exactly step n places ↔ ∃ i ∈ places, Chain (fun i j => j ∈ step i) n i j := by
  induction n generalizing places with
  | zero => simp [exactly, chain_zero]
  | succ n ih =>
    simp only [exactly, ih, mem_advance, chain_succ]
    grind

theorem mem_upTo :
    j ∈ upTo step n places ↔ ∃ d ≤ n, ∃ i ∈ places, Chain (fun i j => j ∈ step i) d i j := by
  induction n generalizing places with
  | zero => simp [upTo, chain_zero]
  | succ n ih =>
    simp only [upTo, mem_merge, ih, mem_advance]
    constructor
    · rintro (hj | ⟨d, hd, k, ⟨i, hi, hik⟩, hothers⟩)
      · exact ⟨0, Nat.zero_le _, j, hj, .nil j⟩
      · exact ⟨d + 1, Nat.succ_le_succ hd, i, hi, .cons hik hothers⟩
    · rintro ⟨d, hd, i, hi, hchain⟩
      cases hchain with
      | nil => exact .inl hi
      | cons hfirst hothers =>
        exact .inr ⟨_, Nat.le_of_succ_le_succ hd, _, ⟨i, hi, hfirst⟩, hothers⟩

end Places

namespace Chain

variable {R : Nat → Nat → Prop}

theorem trans (h : Chain R n i j) (h' : Chain R m j k) : Chain R (n + m) i k := by
  induction h with
  | nil => rwa [Nat.zero_add]
  | cons hfirst _ ih =>
    rw [Nat.add_right_comm]
    exact .cons hfirst (ih h')

theorem split (h : Chain R (n + m) i k) : ∃ j, Chain R n i j ∧ Chain R m j k := by
  induction n generalizing i with
  | zero => exact ⟨i, .nil i, Nat.zero_add m ▸ h⟩
  | succ n ih =>
    rw [Nat.add_right_comm] at h
    obtain ⟨l, hfirst, hothers⟩ := chain_succ.mp h
    obtain ⟨j, hfront, hback⟩ := ih hothers
    exact ⟨j, .cons hfirst hfront, hback⟩

/-- What each step does to the bounds of a place, a chain does. -/
theorem le (hR : ∀ i j, R i j → i ≤ j ∧ j ≤ max i m) (h : Chain R n i j) : i ≤ j ∧ j ≤ max i m := by
  induction h with
  | nil => omega
  | cons hfirst _ ih =>
    have := hR _ _ hfirst
    omega

/-- A chain with more steps than it gets forward has a step on the spot, which can be repeated. -/
theorem longer (hR : ∀ i j, R i j → i ≤ j) (h : Chain R n i j) (hn : j < i + n) :
    Chain R (n + 1) i j := by
  induction h with
  | nil => omega
  | @cons n i k j hfirst hothers ih =>
    rcases Nat.eq_or_lt_of_le (hR i k hfirst) with rfl | hlt
    · exact .cons hfirst (.cons hfirst hothers)
    · exact .cons hfirst (ih (by omega))

theorem shorter (hR : ∀ i j, R i j → i ≤ j) (h : Chain R (n + 1) i j) (hn : j ≤ i + n) :
    Chain R n i j := by
  induction n generalizing i with
  | zero =>
    obtain ⟨k, hfirst, hothers⟩ := chain_succ.mp h
    obtain rfl := chain_zero.mp hothers
    have := hR i k hfirst
    exact chain_zero.mpr (by omega)
  | succ n ih =>
    obtain ⟨k, hfirst, hothers⟩ := chain_succ.mp h
    rcases Nat.eq_or_lt_of_le (hR i k hfirst) with rfl | hlt
    · exact hothers
    · exact .cons hfirst (ih hothers (by omega))

theorem resize {l : Nat} (hR : ∀ i j, R i j → i ≤ j) (h : Chain R n i j) (hj : j ≤ i + l) (hn : l < n)
    (hm : l < m) : Chain R m i j := by
  rcases Nat.le_total n m with hle | hle
  · obtain ⟨d, rfl⟩ := Nat.exists_eq_add_of_le hle
    induction d with
    | zero => exact h
    | succ d ih =>
      rw [← Nat.add_assoc]
      exact (ih (by omega) (by omega)).longer hR (by omega)
  · obtain ⟨d, rfl⟩ := Nat.exists_eq_add_of_le hle
    induction d with
    | zero => exact h
    | succ d ih => exact ih (h.shorter hR (by omega)) (by omega) (by omega)

/-- The number of steps only counts up to a bound, for the least number and for those on top of it. -/
theorem exists_bounded_iff {l least extra : Nat} {most : Option Nat} (hR : ∀ i j, R i j → i ≤ j)
    (hj : ∀ n, Chain R n i j → j ≤ i + l) (hextra : extra ≤ l + 1)
    (hmost : ∀ d ≤ l + 1, d ≤ extra ↔ ∀ m ∈ most, least + d ≤ m) :
    (∃ n, least ≤ n ∧ (∀ m ∈ most, n ≤ m) ∧ Chain R n i j) ↔
      ∃ d ≤ extra, Chain R (min least (l + 1) + d) i j := by
  constructor
  · rintro ⟨n, hleast, hn, hchain⟩
    rcases Nat.lt_or_ge l n with hlong | hshort
    · -- A chain this long may as well have one step more than there are places.
      refine ⟨l + 1 - least, (hmost _ (by omega)).mpr fun m hm => ?_, ?_⟩
      · have := hn m hm
        omega
      · exact hchain.resize hR (hj n hchain) hlong (by omega)
    · refine ⟨n - least, (hmost _ (by omega)).mpr fun m hm => ?_, ?_⟩
      · have := hn m hm
        omega
      · rwa [Nat.min_eq_left (by omega), Nat.add_sub_cancel' hleast]
  · rintro ⟨d, hd, hchain⟩
    refine ⟨least + d, by omega, (hmost d (by omega)).mp hd, ?_⟩
    rcases Nat.le_total least (l + 1) with hle | hle
    · rwa [Nat.min_eq_left hle] at hchain
    · exact hchain.resize hR (hj _ hchain) (by omega) (by omega)

end Chain

variable {text : List Char} {r : Regex}

/-- A match does not go back, and not past the end of the text. -/
theorem Spans.le (h : r.Spans text i j) : i ≤ j ∧ j ≤ max i text.length := by
  induction r generalizing i j with
  | empty =>
    obtain rfl : i = j := h
    omega
  | char c =>
    obtain ⟨x, hx, -, rfl⟩ := h
    have := (List.getElem?_eq_some_iff.mp hx).1
    omega
  | assertion a =>
    obtain ⟨rfl, -⟩ := h
    omega
  | concat r s hr hs =>
    obtain ⟨k, hfirst, hsecond⟩ := h
    have := hr hfirst
    have := hs hsecond
    omega
  | alt r s hr hs => exact h.elim hr hs
  | repeated r least most ih =>
    obtain ⟨n, -, -, hchain⟩ := h
    exact hchain.le fun i j => ih

/-- The listed ends of a repetition, one bound for the least number and one for those on top. -/
theorem ends_repeated (least : Nat) (most : Option Nat)
    (hne : ∀ m ∈ most, least ≤ m) : (repeated r least most).ends text i =
      upTo (r.ends text) (most.elim (text.length + 1) fun m => min (m - least) (text.length + 1))
        (exactly (r.ends text) (min least (text.length + 1)) [i]) := by
  cases most with
  | none => rfl
  | some m =>
    have hle : ¬m < least := Nat.not_lt.mpr (hne m rfl)
    simp only [ends, if_neg hle, Option.elim_some]

theorem mem_ends_repeated (hr : ∀ i j, j ∈ r.ends text i ↔ r.Spans text i j) (least : Nat)
    (most : Option Nat) :
    j ∈ (repeated r least most).ends text i ↔ (repeated r least most).Spans text i j := by
  have hstep : (fun i j => j ∈ r.ends text i) = r.Spans text := by
    funext i j
    exact propext (hr i j)
  have hforward : ∀ i j, r.Spans text i j → i ≤ j := fun i j h => (Spans.le h).1
  by_cases hne : ∀ m ∈ most, least ≤ m
  · rw [ends_repeated least most hne, mem_upTo, hstep]
    simp only [mem_exactly, hstep, List.mem_singleton, exists_eq_left]
    rw [Spans, Chain.exists_bounded_iff hforward]
    · constructor
      · rintro ⟨d, hd, k, hfront, hback⟩
        exact ⟨d, hd, hfront.trans hback⟩
      · rintro ⟨d, hd, hchain⟩
        obtain ⟨k, hfront, hback⟩ := hchain.split
        exact ⟨d, hd, k, hfront, hback⟩
    · intro n hchain
      have := hchain.le fun i j h => Spans.le h
      omega
    · cases most with
      | none => exact Nat.le_refl _
      | some m => exact Nat.min_le_right _ _
    · intro d hd
      cases most with
      | none => simpa using hd
      | some m =>
        have := hne m rfl
        simp only [Option.elim_some, Option.mem_some_iff, forall_eq']
        omega
  · -- No number of steps is within the bounds.
    push Not at hne
    obtain ⟨m, rfl, hlt⟩ := hne
    simp only [ends, if_pos hlt, Spans, List.not_mem_nil, false_iff]
    rintro ⟨n, hleast, hmost, -⟩
    have := hmost m rfl
    omega

theorem mem_ends_iff : j ∈ r.ends text i ↔ r.Spans text i j := by
  induction r generalizing i j with
  | empty => exact List.mem_singleton.trans eq_comm
  | char c =>
    simp only [ends, Spans]
    cases text[i]? <;> simp
  | assertion a =>
    simp only [ends, Spans]
    split
    next h => simp only [List.mem_singleton, h, and_true, eq_comm]
    next h => simp only [List.not_mem_nil, h, Bool.false_eq_true, and_false]
  | concat r s hr hs => simp only [ends, Spans, mem_advance, hr, hs]
  | alt r s hr hs => simp only [ends, Spans, mem_merge, hr, hs]
  | repeated r least most ih => exact mem_ends_repeated (fun i j => ih) least most

theorem findsIn_iff : r.findsIn text = true ↔ r.OccursIn text := by
  simp only [findsIn, OccursIn, List.any_eq_true, List.mem_range, Nat.lt_succ_iff, Bool.not_eq_true',
    List.isEmpty_eq_false_iff_exists_mem, mem_ends_iff]

/-- Between the two ends of the text, an expression occurs where it matches the whole of it. -/
theorem occursIn_between_ends (r : Regex) (text : List Char) :
    (concat (assertion .textStart) (concat r (concat (assertion .textEnd) empty))).OccursIn text ↔
      r.Spans text 0 text.length := by
  simp only [OccursIn, Spans, Assertion.holds, beq_iff_eq]
  constructor
  · rintro ⟨i, -, j, -, ⟨rfl, rfl⟩, k, hr, -, ⟨rfl, rfl⟩, -⟩
    exact hr
  · intro hr
    exact ⟨0, Nat.zero_le _, text.length, 0, ⟨rfl, rfl⟩, text.length, hr, text.length, ⟨rfl, rfl⟩, rfl⟩

/-- With the start before one alternative and the end behind the other, only that end of a match is
held. -/
theorem occursIn_open_ends (r s : Regex) (text : List Char) :
    (alt (concat (assertion .textStart) (concat r empty))
      (concat s (concat (assertion .textEnd) empty))).OccursIn text ↔
      (∃ j, r.Spans text 0 j) ∨ ∃ i ≤ text.length, s.Spans text i text.length := by
  simp only [OccursIn, Spans, Assertion.holds, beq_iff_eq]
  constructor
  · rintro ⟨i, hi, j, ⟨-, ⟨rfl, rfl⟩, j, hr, -⟩ | ⟨-, hs, -, ⟨rfl, rfl⟩, -⟩⟩
    · exact .inl ⟨j, hr⟩
    · exact .inr ⟨i, hi, hs⟩
  · rintro (⟨j, hr⟩ | ⟨i, hi, hs⟩)
    · exact ⟨0, Nat.zero_le _, j, .inl ⟨0, ⟨rfl, rfl⟩, j, hr, rfl⟩⟩
    · exact ⟨i, hi, text.length, .inr ⟨text.length, hs, text.length, ⟨rfl, rfl⟩, rfl⟩⟩

end CheckpointedLog.Regex
