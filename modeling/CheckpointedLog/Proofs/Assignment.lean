import CheckpointedLog.Assignment
import CheckpointedLog.Proofs.SortedMap
import Mathlib.Algebra.Group.Int.Defs
import Mathlib.Algebra.Group.Nat.Defs

namespace CheckpointedLog

namespace Assignment

/-- The remainder that is never negative, also for a negative divisor. -/
theorem toInt_remainder (a n : Int64) : (remainder a n).toInt = a.toInt % n.toInt := by
  have hn := n.le_toInt
  have hn' := n.toInt_lt
  have hr : (a % n).toInt = a.toInt.tmod n.toInt := Int64.toInt_mod a n
  rw [Int.tmod_eq_emod] at hr
  unfold remainder
  simp only [Int64.le_iff_toInt_le, Int64.toInt_zero]
  by_cases hzero : n.toInt = 0
  · rw [hzero, Int.emod_zero] at hr ⊢
    simp only [Int.natAbs_zero, Int.natCast_zero, ite_self, Int.sub_zero] at hr
    split
    · exact hr
    · rw [if_pos (Int.le_refl 0), Int64.toInt_add, hr, hzero, Int.add_zero]
      exact Int.bmod_eq_of_le a.le_toInt a.toInt_lt
  have hlow : 0 ≤ a.toInt % n.toInt := Int.emod_nonneg _ hzero
  have hhigh : a.toInt % n.toInt < n.toInt.natAbs := Int.emod_lt _ hzero
  split at hr
  · rw [if_pos (by omega)]
    omega
  · rw [if_neg (by omega)]
    -- The sum does not wrap, since it is the remainder.
    split
    · rw [Int64.toInt_add, Int.bmod_eq_of_le] <;> omega
    · rw [Int64.toInt_sub, Int.bmod_eq_of_le] <;> omega

theorem topicStart_bounds (topic : String) :
    0 ≤ (topicStart topic).toInt ∧ (topicStart topic).toInt < 2 ^ 31 := by
  have hmask : (topicHash topic * 31 &&& 0x7FFFFFFF).toBitVec.toNat < 2 ^ 31 := by
    rw [Int32.toBitVec_and, BitVec.toNat_and]
    exact Nat.and_lt_two_pow _ (by decide)
  have hsigned : (topicHash topic * 31 &&& 0x7FFFFFFF).toInt =
      (topicHash topic * 31 &&& 0x7FFFFFFF).toBitVec.toNat :=
    BitVec.toInt_eq_toNat_of_lt (by omega)
  rw [topicStart, Int32.toInt_toInt64, hsigned]
  omega

/-- The number that a count is read as: the counts of the upper half are read as negative ones. -/
theorem toInt_signed (count : UInt64) :
    count.toInt64.toInt =
      if 2 * count.toNat < 2 ^ 64 then (count.toNat : Int) else count.toNat - 2 ^ 64 :=
  BitVec.toInt_eq_toNat_cond count.toBitVec

theorem toInt_signed_ne_zero {count : UInt64} (h : count ≠ 0) : count.toInt64.toInt ≠ 0 := by
  have hlt := count.toNat_lt
  have hpos : count.toNat ≠ 0 := fun h0 => h (UInt64.toNat_inj.mp h0)
  rw [toInt_signed]
  split <;> omega

/-- Reducing the start of a topic makes it no greater, whatever the sign of the divisor. -/
theorem toInt_topicStart_mod (topic : String) (n : Int64) :
    (topicStart topic % n).toInt = (topicStart topic).toInt % n.toInt ∧
      0 ≤ (topicStart topic % n).toInt ∧ (topicStart topic % n).toInt < 2 ^ 31 := by
  obtain ⟨hlow, hhigh⟩ := topicStart_bounds topic
  have hnatAbs := Int.natAbs_tmod (topicStart topic).toInt n.toInt
  have hle := Nat.mod_le (topicStart topic).toInt.natAbs n.toInt.natAbs
  have hnonneg := Int.tmod_nonneg n.toInt hlow
  rw [Int64.toInt_mod]
  exact ⟨Int.tmod_eq_emod_of_nonneg hlow, hnonneg, by omega⟩

theorem toInt_place (p : Partition) (n : Int64) :
    (topicStart p.topic % n + p.index.toInt64).toInt =
      (topicStart p.topic % n).toInt + p.index.toInt := by
  obtain ⟨-, hlow, hhigh⟩ := toInt_topicStart_mod p.topic n
  have hindex := p.index.le_toInt
  have hindex' := p.index.toInt_lt
  rw [Int64.toInt_add, Int32.toInt_toInt64, Int.bmod_eq_of_le] <;> omega

theorem remainder_nonneg (a : Int64) {n : Int64} (hn : n.toInt ≠ 0) : 0 ≤ remainder a n := by
  rw [Int64.le_iff_toInt_le, Int64.toInt_zero, toInt_remainder]
  exact Int.emod_nonneg _ hn

/-- The owner in exact numbers, with the count as it is read. -/
theorem toNat_ownerOf (p : Partition) {count : UInt64} (h : count ≠ 0) :
    ((ownerOf p count).toNat : Int) =
      ((topicStart p.topic).toInt + p.index.toInt) % count.toInt64.toInt := by
  have hn := toInt_signed_ne_zero h
  obtain ⟨hreduced, -, -⟩ := toInt_topicStart_mod p.topic count.toInt64
  have hplace := toInt_place p count.toInt64
  simp only [ownerOf, if_neg h]
  generalize topicStart p.topic % count.toInt64 + p.index.toInt64 = place at hplace
  have hnonneg := remainder_nonneg place hn
  have hvalue := toInt_remainder place count.toInt64
  rw [Int64.toNat_toUInt64_of_le hnonneg, Int64.toNatClampNeg]
  rw [Int64.le_iff_toInt_le, Int64.toInt_zero] at hnonneg
  rw [Int.toNat_of_nonneg hnonneg, hvalue, hplace, hreduced, Int.emod_add_emod]

theorem ownerOf_lt (p : Partition) {count : UInt64} (h : count ≠ 0) : ownerOf p count < count := by
  have hlt := count.toNat_lt
  have hsigned := toInt_signed count
  have howner := toNat_ownerOf p h
  have hless := Int.emod_lt ((topicStart p.topic).toInt + p.index.toInt) (toInt_signed_ne_zero h)
  rw [UInt64.lt_iff_toNat_lt]
  split at hsigned <;> omega

theorem ownerOf_one (p : Partition) : ownerOf p 1 = 0 := by
  have hlt : ownerOf p 1 < 1 := ownerOf_lt p (by decide)
  rw [UInt64.lt_iff_toNat_lt] at hlt
  exact UInt64.toNat_inj.mp (Nat.lt_one_iff.mp hlt)

end Assignment

namespace Subtask

theorem owns_iff {t : Subtask} {p : Partition} :
    t.owns p = true ↔ Assignment.ownerOf p t.count = t.index := beq_iff_eq

theorem mem_assign {t : Subtask} {ps : List Partition} {p : Partition} :
    p ∈ t.assign ps ↔ p ∈ ps ∧ t.owns p = true := by
  rw [assign, Partition.mem_ascending, List.mem_filter]

theorem owns_of_count_eq_one {t : Subtask} (h : t.count = 1) (p : Partition) : t.owns p = true := by
  have hindex := t.index_lt
  rw [h, UInt64.lt_iff_toNat_lt] at hindex
  have hzero : t.index = 0 := UInt64.toNat_inj.mp (Nat.lt_one_iff.mp hindex)
  rw [owns_iff, h, hzero]
  exact Assignment.ownerOf_one p

theorem ofIndex_self (t : Subtask) : ofIndex t.index t.count = .ok t := by
  have hcount : t.count ≠ 0 := by
    intro h
    have hlt := t.index_lt
    rw [h, UInt64.lt_iff_toNat_lt] at hlt
    exact Nat.not_lt_zero _ hlt
  rw [ofIndex, if_neg hcount, dif_pos t.index_lt]

theorem ofIndex_ok {index count : UInt64} {t : Subtask} (h : ofIndex index count = .ok t) :
    count ≠ 0 ∧ t.index = index ∧ t.count = count := by
  unfold ofIndex at h
  split at h
  · cases h
  next hcount =>
  split at h
  · obtain rfl := Except.ok.inj h
    exact ⟨hcount, rfl, rfl⟩
  · cases h

end Subtask

end CheckpointedLog
