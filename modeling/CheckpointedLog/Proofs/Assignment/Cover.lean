import CheckpointedLog.Proofs.Assignment
import Mathlib.Logic.ExistsUnique

namespace CheckpointedLog

namespace Assignment

/-- The signed 64-bit number of this value, if there is one. -/
def exactly? (a : Int) : Option Int64 :=
  if -2 ^ 63 ≤ a ∧ a < 2 ^ 63 then some (Int64.ofInt a) else none

/-- The remainder, unless the division fails: by 0, or of the least number by -1. -/
def checkedMod? (a n : Int64) : Option Int64 :=
  if n = 0 ∨ (a = Int64.minValue ∧ n = -1) then none else some (a % n)

/-- The non-negative remainder, unless an operation on the way to it fails. -/
def checkedRemainder? (a n : Int64) : Option Int64 := do
  let r ← checkedMod? a n
  if 0 ≤ r then return r
  else if 0 ≤ n then exactly? (r.toInt + n.toInt)
  else exactly? (r.toInt - n.toInt)

/-- The owner of a partition among `count` subtasks, unless an operation on the way to it fails. -/
def ownerOf? (p : Partition) (count : UInt64) : Option UInt64 := do
  let n := (if count = 0 then 1 else count).toInt64
  let start ← checkedMod? (topicStart p.topic) n
  let place ← exactly? (start.toInt + p.index.toInt)
  let r ← checkedRemainder? place n
  if 0 ≤ r then return r.toUInt64 else none

theorem exactly?_eq_some {a : Int} {b : Int64} (h : b.toInt = a) : exactly? a = some b := by
  have hlow := b.le_toInt
  have hhigh := b.toInt_lt
  rw [exactly?, if_pos (by omega), ← h, Int64.ofInt_toInt]

theorem checkedMod?_eq_some {a n : Int64} (hn : n ≠ 0) (ha : a ≠ Int64.minValue) :
    checkedMod? a n = some (a % n) :=
  if_neg (not_or.mpr ⟨hn, fun h => ha h.1⟩)

theorem checkedRemainder?_eq_some {a n : Int64} (hn : n.toInt ≠ 0) (ha : a ≠ Int64.minValue) :
    checkedRemainder? a n = some (remainder a n) := by
  have hdivisor : n ≠ 0 := fun h => hn (congrArg Int64.toInt h)
  have hexact := toInt_remainder a n
  have hnonneg : 0 ≤ a.toInt % n.toInt := Int.emod_nonneg _ hn
  have hmod : (a % n).toInt = a.toInt.tmod n.toInt := Int64.toInt_mod a n
  rw [Int.tmod_eq_emod] at hmod
  rw [checkedRemainder?, checkedMod?_eq_some hdivisor ha, Option.bind_eq_bind, Option.bind_some,
    remainder]
  simp only [remainder, Int64.le_iff_toInt_le, Int64.toInt_zero] at hexact ⊢
  by_cases hr : 0 ≤ (a % n).toInt
  · simp only [if_pos hr]
    rfl
  · -- One step up from the truncating remainder is the exact one, so that the step does not overflow.
    simp only [if_neg hr] at hexact ⊢
    by_cases hsign : 0 ≤ n.toInt
    · simp only [if_pos hsign] at hexact ⊢
      apply exactly?_eq_some
      split at hmod <;> omega
    · simp only [if_neg hsign] at hexact ⊢
      apply exactly?_eq_some
      split at hmod <;> omega

/-- No number of subtasks and no partition makes an operation fail. -/
theorem ownerOf?_eq_some (p : Partition) (count : UInt64) :
    ownerOf? p count = some (ownerOf p count) := by
  have hcount : (if count = 0 then 1 else count) ≠ 0 := by
    split
    · decide
    · assumption
  simp only [ownerOf?, ownerOf]
  generalize (if count = 0 then 1 else count) = n at hcount
  have hn := toInt_signed_ne_zero hcount
  have hdivisor : n.toInt64 ≠ 0 := fun h => hn (congrArg Int64.toInt h)
  obtain ⟨hlow, -⟩ := topicStart_bounds p.topic
  obtain ⟨-, hlow', -⟩ := toInt_topicStart_mod p.topic n.toInt64
  have hplace := toInt_place p n.toInt64
  have hindex := p.index.le_toInt
  -- Both dividends are far from the least number.
  have hstart : topicStart p.topic ≠ Int64.minValue := by
    intro h
    rw [h, Int64.toInt_minValue] at hlow
    omega
  have hsum : topicStart p.topic % n.toInt64 + p.index.toInt64 ≠ Int64.minValue := by
    intro h
    rw [h, Int64.toInt_minValue] at hplace
    omega
  rw [checkedMod?_eq_some hdivisor hstart]
  simp only [Option.bind_eq_bind, Option.bind_some, exactly?_eq_some hplace,
    checkedRemainder?_eq_some hn hsum, if_pos (remainder_nonneg _ hn)]
  rfl

end Assignment

namespace Subtask

/-- There is a subtask of each index below the number of subtasks, and of no other. -/
theorem ofIndex_eq_ok {index count : UInt64} (h : index < count) :
    ofIndex index count = .ok ⟨index, count, h⟩ :=
  ofIndex_self ⟨index, count, h⟩

/-- How `count` subtasks share the partitions `ps`. -/
structure Share (count : UInt64) (ps : List Partition) : Prop where
  /-- Each partition has an owner, which is found without an overflow and without a failed division. -/
  owner : ∀ p, Assignment.ownerOf? p count = some (Assignment.ownerOf p count) ∧
    Assignment.ownerOf p count < count
  /-- A subtask takes the partitions that it owns, each once and in ascending order. -/
  part : ∀ index < count, ∃ t, ofIndex index count = .ok t ∧
    (t.assign ps).Pairwise (fun p q => compare p q = .lt) ∧
    ∀ p, p ∈ t.assign ps ↔ p ∈ ps ∧ Assignment.ownerOf p count = index
  /-- Nothing is left over, and nothing is taken twice. -/
  once : ∀ p ∈ ps, ∃! index, ∃ t, ofIndex index count = .ok t ∧ p ∈ t.assign ps
  /-- Neither the order of the list nor its repetitions matter. -/
  same : ∀ qs, (∀ p, p ∈ qs ↔ p ∈ ps) → ∀ t : Subtask, t.count = count → t.assign qs = t.assign ps

/-- Any number of subtasks from 1 on share any list of partitions, also a number that is read as a
negative one. -/
theorem assign_divides {count : UInt64} (hcount : count ≠ 0) (ps : List Partition) :
    Share count ps := by
  have hmem (t : Subtask) (ht : t.count = count) (p : Partition) :
      p ∈ t.assign ps ↔ p ∈ ps ∧ Assignment.ownerOf p count = t.index := by
    rw [mem_assign, owns_iff, ht]
  constructor
  case owner =>
    exact fun p => ⟨Assignment.ownerOf?_eq_some p count, Assignment.ownerOf_lt p hcount⟩
  case part =>
    intro index hindex
    exact ⟨⟨index, count, hindex⟩, ofIndex_eq_ok hindex, Partition.pairwise_ascending _, hmem _ rfl⟩
  case once =>
    intro p hp
    have howner := Assignment.ownerOf_lt p hcount
    refine ⟨Assignment.ownerOf p count, ?_, ?_⟩
    · exact ⟨_, ofIndex_eq_ok howner, (hmem _ rfl p).mpr ⟨hp, rfl⟩⟩
    · rintro index ⟨t, ht, hassigned⟩
      obtain ⟨-, rfl, htcount⟩ := ofIndex_ok ht
      exact ((hmem t htcount p).mp hassigned).2.symm
  case same =>
    intro qs hqs t _
    apply Partition.ascending_congr
    intro p
    rw [List.mem_filter, List.mem_filter, hqs]

/-- Among `2 ^ 64 - 3` subtasks, a number that is read as -3, a partition with a negative index is given
to one of the first three, and so is one that stands twice in the list. -/
theorem assign_divides_negative_count :
    let count : UInt64 := 18446744073709551613
    let ps : List Partition := [⟨"b", -7⟩, ⟨"a", 2⟩, ⟨"b", -7⟩, ⟨"a", -1⟩]
    count.toInt64 = -3 ∧ count ≠ 0 ∧ Share count ps ∧
      ps.map (Assignment.ownerOf · count) = [1, 0, 1, 0] := by
  intro count ps
  have hcount : count ≠ 0 := by decide
  exact ⟨by decide, hcount, assign_divides hcount ps, by decide +kernel⟩

end Subtask

end CheckpointedLog
