import CheckpointedLog.Proofs.Assignment
import Mathlib.Algebra.BigOperators.Group.Finset.Basic
import Mathlib.Algebra.BigOperators.Ring.Finset
import Mathlib.Data.Int.CardIntervalMod
import Mathlib.Data.List.GetD

/-!
The owner of a partition in exact numbers, and what follows from it: the partitions of a topic are dealt
out in turn, so that no subtask gets more than one of them ahead of another. The hash of a topic is a
polynomial in 31 over its 16-bit units; machine arithmetic loses only multiples of `2 ^ 32` of it, and the
sign that is cut off leaves the remainder by `2 ^ 31`.
-/
namespace CheckpointedLog.Assignment

open scoped BigOperators

/-- `u₁ * 31 ^ (n - 1) + … + uₙ` over some 16-bit units, in exact numbers. -/
def unitSum (us : List UInt16) : Nat :=
  ∑ k ∈ Finset.range us.length, (us.getD k 0).toNat * 31 ^ (us.length - (k + 1))

theorem unitSum_append (us : List UInt16) (u : UInt16) :
    unitSum (us ++ [u]) = unitSum us * 31 + u.toNat := by
  have hterm : ∀ k ∈ Finset.range us.length,
      ((us ++ [u]).getD k 0).toNat * 31 ^ (us.length + 1 - (k + 1)) =
        (us.getD k 0).toNat * 31 ^ (us.length - (k + 1)) * 31 := by
    intro k hk
    have hlt := Finset.mem_range.mp hk
    have hexponent : us.length + 1 - (k + 1) = us.length - (k + 1) + 1 := by omega
    rw [List.getD_append _ _ _ _ hlt, hexponent, pow_succ, mul_assoc]
  have hlast : (us ++ [u]).getD us.length 0 = u := by
    rw [List.getD_append_right _ _ _ _ (Nat.le_refl _), Nat.sub_self]
    rfl
  rw [unitSum, List.length_append, List.length_singleton, Finset.sum_range_succ,
    Finset.sum_congr rfl hterm, ← Finset.sum_mul, hlast, Nat.sub_self, pow_zero, mul_one]
  rfl

/-- Wrapping arithmetic gives the exact hash, cut to 32 bits. -/
theorem topicHash_eq (topic : String) :
    topicHash topic = Int32.ofNat (unitSum (Text.units16 topic)) := by
  rw [topicHash]
  -- The fold takes the units from the left, so that the induction appends them at the end.
  induction Text.units16 topic using List.reverseRecOn with
  | nil => rfl
  | append_singleton us u ih =>
    rw [List.foldl_append, List.foldl_cons, List.foldl_nil, ih, unitSum_append, Int32.ofNat_add,
      Int32.ofNat_mul]
    rfl

/-- Without its sign, a 32-bit number is the remainder by `2 ^ 31`. -/
theorem toInt_ofNat_and_mask (n : Nat) :
    (Int32.ofNat n &&& 0x7FFFFFFF).toInt = (n % 2 ^ 31 : Nat) := by
  have hbits : (Int32.ofNat n &&& 0x7FFFFFFF).toBitVec.toNat = n % 2 ^ 31 := by
    rw [Int32.toBitVec_and, BitVec.toNat_and]
    change n % 2 ^ 32 &&& (2 ^ 31 - 1) = _
    rw [Nat.and_two_pow_sub_one_eq_mod, Nat.mod_mod_of_dvd n (by decide)]
  have hlt : n % 2 ^ 31 < 2 ^ 31 := Nat.mod_lt _ (by decide)
  rw [← hbits]
  exact BitVec.toInt_eq_toNat_of_lt (by omega)

theorem toInt_topicStart (topic : String) :
    (topicStart topic).toInt = (31 * unitSum (Text.units16 topic) % 2 ^ 31 : Nat) := by
  have hproduct : topicHash topic * 31 = Int32.ofNat (31 * unitSum (Text.units16 topic)) := by
    rw [topicHash_eq, Nat.mul_comm, Int32.ofNat_mul]
    rfl
  rw [topicStart, Int32.toInt_toInt64, hproduct, toInt_ofNat_and_mask]

/-- The owner in exact numbers, if the count is not read as a negative one. -/
theorem toNat_ownerOf_of_lt (p : Partition) {count : UInt64} (hpos : 0 < count)
    (hsmall : count.toNat < 2 ^ 63) :
    ((ownerOf p count).toNat : Int) =
      ((31 * unitSum (Text.units16 p.topic) % 2 ^ 31 : Nat) + p.index.toInt) % count.toNat := by
  have hne : count ≠ 0 := by
    rintro rfl
    exact absurd hpos (by decide)
  have hsigned : count.toInt64.toInt = count.toNat := by
    rw [toInt_signed, if_pos (by omega)]
  rw [toNat_ownerOf p hne, toInt_topicStart, hsigned]

/-- The owners of `k` partitions of a topic with consecutive indexes, the first of which is `first`. -/
def owners (topic : String) (count : UInt64) (first : Int) (k : Nat) : List UInt64 :=
  (List.range k).map fun j : Nat => ownerOf ⟨topic, Int32.ofInt (first + j)⟩ count

variable (topic : String) {count : UInt64} {first : Int} {k : Nat}

/-- The owner of one of the consecutive partitions comes `j` after that of the first one. -/
theorem ownerOf_consecutive (hpos : 0 < count) (hsmall : count.toNat < 2 ^ 63)
    (hfirst : -2 ^ 31 ≤ first) (hlast : first + k ≤ 2 ^ 31) {j : Nat} (hj : j < k) :
    ((ownerOf ⟨topic, Int32.ofInt (first + j)⟩ count).toNat : Int) =
      ((31 * unitSum (Text.units16 topic) % 2 ^ 31 : Nat) + first + j) % count.toNat := by
  rw [toNat_ownerOf_of_lt _ hpos hsmall, Int32.toInt_ofInt_of_le (by omega) (by omega), add_assoc]

/-- Of the consecutive partitions, a subtask owns those of one residue class. -/
theorem exists_ownerOf_iff (hpos : 0 < count) (hsmall : count.toNat < 2 ^ 63)
    (hfirst : -2 ^ 31 ≤ first) (hlast : first + k ≤ 2 ^ 31) {t : UInt64} (ht : t < count) :
    ∃ v : Nat, ∀ j < k,
      ownerOf ⟨topic, Int32.ofInt (first + j)⟩ count = t ↔ j ≡ v [MOD count.toNat] := by
  have hn : 0 < count.toNat := UInt64.lt_iff_toNat_lt.mp hpos
  have htn : t.toNat < count.toNat := UInt64.lt_iff_toNat_lt.mp ht
  have howner {j : Nat} := ownerOf_consecutive topic (j := j) hpos hsmall hfirst hlast
  generalize ((31 * unitSum (Text.units16 topic) % 2 ^ 31 : Nat) : Int) + first = start at howner
  -- The class is that of the number which leads from the start to the subtask.
  have hclass : (((t.toNat - start) % count.toNat).toNat : Int) = (t.toNat - start) % count.toNat :=
    Int.toNat_of_nonneg (Int.emod_nonneg _ (by omega))
  have hself : (t.toNat : Int) = (t.toNat : Int) % count.toNat :=
    (Int.emod_eq_of_lt (Int.natCast_nonneg _) (by omega)).symm
  refine ⟨((t.toNat - start) % count.toNat).toNat, fun j hj => ?_⟩
  calc ownerOf ⟨topic, Int32.ofInt (first + j)⟩ count = t
      ↔ (start + j) % count.toNat = (t.toNat : Int) % count.toNat := by
        rw [← UInt64.toNat_inj, ← Int.natCast_inj, howner hj, ← hself]
    _ ↔ (j : Int) % count.toNat = (t.toNat - start) % count.toNat := by
        rw [Int.emod_eq_emod_iff_emod_sub_eq_zero, Int.emod_eq_emod_iff_emod_sub_eq_zero (m := j)]
        have hsame : start + j - t.toNat = j - (t.toNat - start) := by omega
        rw [hsame]
    _ ↔ j ≡ ((t.toNat - start) % count.toNat).toNat [MOD count.toNat] := by
        rw [← Int.natCast_modEq_iff, hclass, Int.ModEq, Int.emod_emod_of_dvd _ (Int.dvd_refl _)]

/-- Of `k` consecutive partitions each subtask owns the integer part of `k / n` or one more. -/
theorem exists_count_owners (hpos : 0 < count) (hsmall : count.toNat < 2 ^ 63)
    (hfirst : -2 ^ 31 ≤ first) (hlast : first + k ≤ 2 ^ 31) {t : UInt64} (ht : t < count) :
    k / count.toNat ≤ (owners topic count first k).count t ∧
      (owners topic count first k).count t ≤ k / count.toNat + 1 := by
  obtain ⟨v, hv⟩ := exists_ownerOf_iff topic hpos hsmall hfirst hlast ht
  have hcount : (owners topic count first k).count t = Nat.count (· ≡ v [MOD count.toNat]) k := by
    rw [owners, List.count_eq_countP, List.countP_map, Nat.count]
    apply List.countP_congr
    intro j hj
    simpa using hv j (List.mem_range.mp hj)
  rw [hcount, Nat.count_modEq_card k (UInt64.lt_iff_toNat_lt.mp hpos) v]
  split <;> omega

/-- As many consecutive partitions as there are subtasks have different owners. -/
theorem nodup_owners (hpos : 0 < count) (hsmall : count.toNat < 2 ^ 63)
    (hfirst : -2 ^ 31 ≤ first) (hlast : first + count.toNat ≤ 2 ^ 31) :
    (owners topic count first count.toNat).Nodup := by
  refine List.Nodup.map_on (fun i hi j hj hij => ?_) List.nodup_range
  rw [List.mem_range] at hi hj
  have howner := ownerOf_consecutive topic hpos hsmall hfirst hlast hi
  have howner' := ownerOf_consecutive topic hpos hsmall hfirst hlast hj
  rw [hij, howner'] at howner
  -- Two numbers below the divisor in the same class are equal.
  have hmod : (j : Int) ≡ i [ZMOD count.toNat] := Int.ModEq.add_left_cancel' _ howner
  rw [Int.natCast_modEq_iff, Nat.ModEq, Nat.mod_eq_of_lt hj, Nat.mod_eq_of_lt hi] at hmod
  exact hmod.symm

/-- For any number of subtasks that is not read as a negative one: the owner of a partition is the sum of
its index and of the start of its topic, reduced, in exact numbers. So as many consecutive partitions of a
topic as there are subtasks all have different owners, and of any consecutive partitions of a topic no
subtask has more than one more than another. -/
theorem ownerOf_deals_in_turn {count : UInt64} (hpos : 0 < count) (hsmall : count.toNat < 2 ^ 63)
    (topic : String) :
    (∀ index : Int32, ((ownerOf ⟨topic, index⟩ count).toNat : Int) =
      ((31 * unitSum (Text.units16 topic) % 2 ^ 31 : Nat) + index.toInt) % count.toNat) ∧
    (∀ first : Int, -2 ^ 31 ≤ first → first + count.toNat ≤ 2 ^ 31 →
      (owners topic count first count.toNat).Nodup) ∧
    ∀ (first : Int) (k : Nat), -2 ^ 31 ≤ first → first + k ≤ 2 ^ 31 →
      ∀ s < count, ∀ t < count,
        (owners topic count first k).count s ≤ (owners topic count first k).count t + 1 := by
  refine ⟨fun index => toNat_ownerOf_of_lt ⟨topic, index⟩ hpos hsmall, ?_, ?_⟩
  · intro first hfirst hlast
    exact nodup_owners topic hpos hsmall hfirst hlast
  · intro first k hfirst hlast s hs t ht
    have hmost := (exists_count_owners topic hpos hsmall hfirst hlast hs).2
    have hleast := (exists_count_owners topic hpos hsmall hfirst hlast ht).1
    exact hmost.trans (Nat.succ_le_succ hleast)

/-- Among three subtasks, for a topic with a character that takes two units: the owner of a partition with
a negative index, and of seven consecutive partitions around index 0 two or three for each subtask. -/
theorem ownerOf_deals_in_turn_around_zero :
    let count : UInt64 := 3
    let topic := "a😀"
    0 < count ∧ count.toNat < 2 ^ 63 ∧ Text.units16 topic = [97, 0xD83D, 0xDE00] ∧
      ((ownerOf ⟨topic, -5⟩ count).toNat : Int) =
        ((31 * unitSum [97, 0xD83D, 0xDE00] % 2 ^ 31 : Nat) + -5) % 3 ∧
      (owners topic count (-1) 3).Nodup ∧
      (owners topic count (-3) 7).count 0 ≤ (owners topic count (-3) 7).count 1 + 1 ∧
      owners topic count (-3) 7 = [2, 0, 1, 2, 0, 1, 2] := by
  intro count topic
  have hpos : 0 < count := by decide
  have hsmall : count.toNat < 2 ^ 63 := by decide
  have hunits : Text.units16 topic = [97, 0xD83D, 0xDE00] := by decide +kernel
  have howners : owners topic count (-3) 7 = [2, 0, 1, 2, 0, 1, 2] := by decide +kernel
  obtain ⟨hexact, hnodup, hbalanced⟩ := ownerOf_deals_in_turn hpos hsmall topic
  rw [hunits] at hexact
  exact ⟨hpos, hsmall, hunits, hexact (-5), hnodup (-1) (by decide) (by decide),
    hbalanced (-3) 7 (by decide) (by decide) 0 (by decide) 1 (by decide), howners⟩

end CheckpointedLog.Assignment
