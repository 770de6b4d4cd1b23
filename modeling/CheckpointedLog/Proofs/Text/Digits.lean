import CheckpointedLog.Text.Digits
import Mathlib.Data.Nat.Notation

namespace CheckpointedLog.Decimal

/-- Only digits count in a number that is read, so that reading goes on as with the digits' values. -/
theorem digitsFrom_of_isDigit {cs : List Char} (h : ∀ c ∈ cs, c.isDigit = true) (n : ℕ) :
    digitsFrom n cs = some (Nat.ofDigitChars 10 cs n) := by
  induction cs generalizing n with
  | nil => rfl
  | cons c cs ih =>
    obtain ⟨hc, hcs⟩ := List.forall_mem_cons.mp h
    have hdigit : digit? c = some (c.toNat - '0'.toNat) := by
      rw [Char.isDigit, Bool.and_eq_true, decide_eq_true_eq, decide_eq_true_eq] at hc
      exact if_pos hc
    rw [digitsFrom, hdigit, Option.bind_some, ih hcs, Nat.ofDigitChars_cons]

theorem toList_toString (n : ℕ) : (toString n).toList = Nat.toDigits 10 n := Nat.toList_repr

theorem isDigit_of_mem_toString {n : ℕ} {c : Char} (h : c ∈ (toString n).toList) :
    c.isDigit = true := by
  rw [toList_toString] at h
  exact Nat.isDigit_of_mem_toDigits (by decide) (by decide) h

theorem nat?_toString (n : ℕ) : nat? (toString n).toList = some n := by
  have hdigits : digitsFrom 0 (toString n).toList = some n := by
    rw [digitsFrom_of_isDigit fun _ => isDigit_of_mem_toString, toList_toString,
      Nat.ofDigitChars_toDigits (by decide) (by decide)]
  cases hcs : (toString n).toList with
  | nil => exact absurd ((toList_toString n).symm.trans hcs) Nat.toDigits_ne_nil
  | cons c cs =>
    rw [hcs] at hdigits
    exact hdigits

theorem uint64?_toString (n : UInt64) : uint64? (toString n.toNat).toList = some n := by
  have hread := nat?_toString n.toNat
  unfold uint64?
  split
  next rest hcs =>
    -- No sign is written.
    have hplus : '+' ∈ (toString n.toNat).toList := hcs ▸ List.mem_cons_self ..
    exact absurd (isDigit_of_mem_toString hplus) (by decide)
  next =>
    simp only [hread, Option.bind_some, if_pos n.toNat_lt_size, UInt64.ofNat_toNat]

theorem digitChar_of_digit? {c : Char} {d : ℕ} (h : digit? c = some d) :
    d < 10 ∧ Nat.digitChar d = c := by
  unfold digit? at h
  split at h
  next hc =>
    obtain ⟨hlow, hhigh⟩ : '0'.toNat ≤ c.toNat ∧ c.toNat ≤ '9'.toNat := hc
    have hd := Option.some.inj h
    change 48 ≤ c.toNat at hlow
    change c.toNat ≤ 57 at hhigh
    change c.toNat - 48 = d at hd
    refine ⟨by omega, Char.toNat_inj.mp ?_⟩
    rw [Nat.toNat_digitChar_of_lt_ten (by omega)]
    omega
  next => cases h

/-- After a positive number, digits that are read are its next ones. -/
theorem toDigits_append_of_digitsFrom {cs : List Char} {acc n : ℕ} (hacc : 0 < acc)
    (h : digitsFrom acc cs = some n) : Nat.toDigits 10 acc ++ cs = Nat.toDigits 10 n := by
  induction cs generalizing acc with
  | nil =>
    obtain rfl := Option.some.inj h
    exact List.append_nil _
  | cons c cs ih =>
    obtain ⟨d, hd, h⟩ := Option.bind_eq_some_iff.mp h
    obtain ⟨hlt, hc⟩ := digitChar_of_digit? hd
    have hnext := Nat.toDigits_append_toDigits (b := 10) (by decide) hacc hlt
    rw [Nat.toDigits_of_lt_base hlt, hc] at hnext
    have hrest := ih (by omega) h
    rwa [← hnext, List.append_assoc] at hrest

theorem digitsFrom_zeros (zeros : ℕ) (cs : List Char) :
    digitsFrom 0 (List.replicate zeros '0' ++ cs) = digitsFrom 0 cs := by
  induction zeros with
  | zero => rfl
  | succ zeros ih => exact ih

theorem nat?_of_ne_nil {cs : List Char} (h : cs ≠ []) : nat? cs = digitsFrom 0 cs := by
  cases cs with
  | nil => exact absurd rfl h
  | cons c cs => rfl

theorem nat?_zeros (zeros n : ℕ) :
    nat? (List.replicate zeros '0' ++ (toString n).toList) = some n := by
  have hne : (toString n).toList ≠ [] := toList_toString n ▸ Nat.toDigits_ne_nil
  rw [nat?_of_ne_nil (List.append_ne_nil_of_right_ne_nil _ hne), digitsFrom_zeros,
    ← nat?_of_ne_nil hne, nat?_toString]

theorem exists_zeros_of_nat? {cs : List Char} {n : ℕ} (h : nat? cs = some n) :
    ∃ zeros, cs = List.replicate zeros '0' ++ (toString n).toList := by
  rw [toList_toString]
  induction cs with
  | nil => cases h
  | cons c cs ih =>
    obtain ⟨d, hd, hrest⟩ := Option.bind_eq_some_iff.mp h
    obtain ⟨hlt, rfl⟩ := digitChar_of_digit? hd
    rw [Nat.mul_zero, Nat.zero_add] at hrest
    by_cases hzero : d = 0
    · -- A zero in front is one of those that do not count, unless it is all that there is.
      subst hzero
      cases cs with
      | nil =>
        obtain rfl := Option.some.inj hrest
        exact ⟨0, rfl⟩
      | cons c cs =>
        obtain ⟨zeros, hzeros⟩ := ih hrest
        exact ⟨zeros + 1, congrArg (List.cons '0') hzeros⟩
    · have hdigits := toDigits_append_of_digitsFrom (Nat.pos_of_ne_zero hzero) hrest
      rw [Nat.toDigits_of_lt_base hlt] at hdigits
      exact ⟨0, hdigits⟩

/-- A text is read as a number of 64 bits if and only if it has the digits of the number, with any number
of zeros and then perhaps a plus sign in front. -/
theorem uint64?_eq_some_iff {cs : List Char} {n : UInt64} :
    uint64? cs = some n ↔ ∃ (signed : Bool) (zeros : ℕ),
      cs = (if signed then ['+'] else []) ++
        (List.replicate zeros '0' ++ (toString n.toNat).toList) := by
  have hbounded {digits : List Char} :
      ((nat? digits).bind fun k => if k < UInt64.size then some (UInt64.ofNat k) else none) = some n ↔
        ∃ zeros, digits = List.replicate zeros '0' ++ (toString n.toNat).toList := by
    constructor
    · intro h
      obtain ⟨k, hk, h⟩ := Option.bind_eq_some_iff.mp h
      obtain ⟨hlt, h⟩ := Option.ite_none_right_eq_some.mp h
      obtain rfl := Option.some.inj h
      rw [UInt64.toNat_ofNat_of_lt' hlt]
      exact exists_zeros_of_nat? hk
    · rintro ⟨zeros, rfl⟩
      simp only [nat?_zeros, Option.bind_some, if_pos n.toNat_lt_size, UInt64.ofNat_toNat]
  unfold uint64?
  split
  next rest =>
    rw [hbounded]
    constructor
    · rintro ⟨zeros, rfl⟩
      exact ⟨true, zeros, rfl⟩
    · rintro ⟨signed, zeros, h⟩
      cases signed with
      | true => exact ⟨zeros, (List.cons.inj h).2⟩
      | false =>
        -- Without a sign there are only digits.
        have hplus : '+' ∈ List.replicate zeros '0' ++ (toString n.toNat).toList :=
          h ▸ List.mem_cons_self ..
        rcases List.mem_append.mp hplus with hzero | hdigit
        · cases List.eq_of_mem_replicate hzero
        · exact absurd (isDigit_of_mem_toString hdigit) (by decide)
  next hplain =>
    rw [hbounded]
    constructor
    · rintro ⟨zeros, rfl⟩
      exact ⟨false, zeros, rfl⟩
    · rintro ⟨signed, zeros, rfl⟩
      cases signed with
      | true => exact absurd rfl (hplain _)
      | false => exact ⟨zeros, rfl⟩

/-- One or more digits and the number that they spell. -/
structure Spells (digits : List Char) (n : ℕ) : Prop where
  nonempty : digits ≠ []
  isDigit : ∀ c ∈ digits, c.isDigit = true
  value : Nat.ofDigitChars 10 digits 0 = n

/-- Digits that spell a number, a sign in front of them or none. -/
inductive SpellsSigned : List Char → Int → Prop where
  | plain {digits : List Char} {n : ℕ} (h : Spells digits n) : SpellsSigned digits n
  | plus {digits : List Char} {n : ℕ} (h : Spells digits n) : SpellsSigned ('+' :: digits) n
  | minus {digits : List Char} {n : ℕ} (h : Spells digits n) : SpellsSigned ('-' :: digits) (-n)

theorem isDigit_of_digit? {c : Char} {d : ℕ} (h : digit? c = some d) : c.isDigit = true := by
  unfold digit? at h
  obtain ⟨hc, -⟩ := Option.ite_none_right_eq_some.mp h
  rw [Char.isDigit, Bool.and_eq_true, decide_eq_true_eq, decide_eq_true_eq]
  exact hc

theorem isDigit_of_digitsFrom {cs : List Char} {acc n : ℕ} (h : digitsFrom acc cs = some n) :
    ∀ c ∈ cs, c.isDigit = true := by
  induction cs generalizing acc with
  | nil =>
    intro c hc
    exact absurd hc List.not_mem_nil
  | cons c cs ih =>
    obtain ⟨d, hd, hrest⟩ := Option.bind_eq_some_iff.mp h
    exact List.forall_mem_cons.mpr ⟨isDigit_of_digit? hd, ih hrest⟩

theorem nat?_eq_some_iff {cs : List Char} {n : ℕ} : nat? cs = some n ↔ Spells cs n := by
  constructor
  · intro h
    have hne : cs ≠ [] := by
      intro hnil
      rw [hnil] at h
      cases h
    rw [nat?_of_ne_nil hne] at h
    have hdigits := isDigit_of_digitsFrom h
    rw [digitsFrom_of_isDigit hdigits] at h
    exact ⟨hne, hdigits, Option.some.inj h⟩
  · intro h
    rw [nat?_of_ne_nil h.nonempty, digitsFrom_of_isDigit h.isDigit, h.value]

theorem Spells.int? {digits : List Char} {n : ℕ} (h : Spells digits n) : int? digits = some (n : Int) := by
  have hvalue : (nat? digits).map Int.ofNat = some (n : Int) := by
    rw [nat?_eq_some_iff.mpr h]
    rfl
  unfold Decimal.int?
  split
  next rest => exact absurd (h.isDigit '+' (List.mem_cons_self ..)) (by decide)
  next rest => exact absurd (h.isDigit '-' (List.mem_cons_self ..)) (by decide)
  next => exact hvalue

theorem int?_eq_some_iff {cs : List Char} {n : Int} : int? cs = some n ↔ SpellsSigned cs n := by
  constructor
  · intro h
    unfold int? at h
    split at h
    next rest =>
      obtain ⟨k, hk, rfl⟩ := Option.map_eq_some_iff.mp h
      exact .plus (nat?_eq_some_iff.mp hk)
    next rest =>
      obtain ⟨k, hk, rfl⟩ := Option.map_eq_some_iff.mp h
      exact .minus (nat?_eq_some_iff.mp hk)
    next =>
      obtain ⟨k, hk, rfl⟩ := Option.map_eq_some_iff.mp h
      exact .plain (nat?_eq_some_iff.mp hk)
  · intro h
    cases h with
    | plain h => exact h.int?
    | plus h => exact Option.map_eq_some_iff.mpr ⟨_, nat?_eq_some_iff.mpr h, rfl⟩
    | minus h => exact Option.map_eq_some_iff.mpr ⟨_, nat?_eq_some_iff.mpr h, rfl⟩

/-- A text is read as a number of 32 bits if and only if it spells the number. -/
theorem int32?_eq_some_iff {cs : List Char} {i : Int32} : int32? cs = some i ↔ SpellsSigned cs i.toInt := by
  rw [← int?_eq_some_iff]
  constructor
  · intro h
    obtain ⟨n, hn, h⟩ := Option.bind_eq_some_iff.mp h
    obtain ⟨⟨hlow, hhigh⟩, h⟩ := Option.ite_none_right_eq_some.mp h
    obtain rfl := Option.some.inj h
    rw [hn, Int32.toInt_ofInt_of_le hlow (Int.lt_add_one_of_le hhigh)]
  · intro h
    have hfits : Int32.minValue.toInt ≤ i.toInt ∧ i.toInt ≤ Int32.maxValue.toInt :=
      ⟨i.minValue_le_toInt, i.toInt_le⟩
    rw [int32?, h, Option.bind_some, if_pos hfits, Int32.ofInt_toInt]

theorem spells_toString (n : ℕ) : Spells (toString n).toList n := nat?_eq_some_iff.mp (nat?_toString n)

theorem spellsSigned_toString (n : Int) : SpellsSigned (toString n).toList n := by
  cases n with
  | ofNat n => exact .plain (spells_toString n)
  | negSucc n =>
    have htext : (toString (Int.negSucc n)).toList = '-' :: (toString (n + 1)).toList :=
      String.toList_append
    rw [htext]
    exact .minus (spells_toString (n + 1))

/-- Nothing but signs and digits stands in a text that spells a number. -/
theorem SpellsSigned.not_mem {cs : List Char} {n : Int} {c : Char} (h : SpellsSigned cs n)
    (hplus : c ≠ '+') (hminus : c ≠ '-') (hdigit : c.isDigit = false) : c ∉ cs := by
  have hdigits {digits : List Char} {k : ℕ} (h : Spells digits k) : c ∉ digits := by
    intro hc
    have htrue := h.isDigit c hc
    rw [hdigit] at htrue
    cases htrue
  cases h with
  | plain h => exact hdigits h
  | plus h => exact List.not_mem_cons_of_ne_of_not_mem hplus (hdigits h)
  | minus h => exact List.not_mem_cons_of_ne_of_not_mem hminus (hdigits h)

end CheckpointedLog.Decimal
