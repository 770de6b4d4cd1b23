import CheckpointedLog.OffsetState
import CheckpointedLog.Proofs.SortedMap

namespace CheckpointedLog

namespace Position

theorem toInt_add_one {n : Int64} (h : n ≠ Int64.maxValue) : (n + 1).toInt = n.toInt + 1 := by
  have hlow := n.le_toInt
  have hhigh := n.toInt_lt
  have hne : n.toInt ≠ 2 ^ 63 - 1 := fun he =>
    h (Int64.toInt_inj.mp (he.trans Int64.toInt_maxValue.symm))
  rw [Int64.toInt_add, Int64.toInt_one]
  exact Int.bmod_eq_of_le (by omega) (by omega)

theorem toInt_sub_one {n : Int64} (h : n ≠ Int64.minValue) : (n - 1).toInt = n.toInt - 1 := by
  have hlow := n.le_toInt
  have hhigh := n.toInt_lt
  have hne : n.toInt ≠ -2 ^ 63 := fun he =>
    h (Int64.toInt_inj.mp (he.trans Int64.toInt_minValue.symm))
  rw [Int64.toInt_sub, Int64.toInt_one]
  exact Int.bmod_eq_of_le (by omega) (by omega)

theorem toInt_after? {last : Int64} {n : Position} (h : after? last = some n) :
    n.toInt = last.toInt + 1 := by
  unfold after? at h
  split at h
  · cases h
  · next hne => rw [← Option.some.inj h, toInt_add_one hne]

theorem after?_eq_some_iff {last : Int64} {n : Position} :
    after? last = some n ↔ n.toInt = last.toInt + 1 := by
  refine ⟨toInt_after?, fun h => ?_⟩
  have hne : last ≠ Int64.maxValue := by
    rintro rfl
    have hlt := n.toInt_lt
    rw [h, Int64.toInt_maxValue] at hlt
    omega
  rw [after?, if_neg hne]
  exact congrArg some (Int64.toInt_inj.mp ((toInt_add_one hne).trans h.symm))

theorem after?_eq_none_iff {last : Int64} : after? last = none ↔ last = Int64.maxValue := by
  rw [after?]
  split
  next h => exact iff_of_true rfl h
  next h => exact iff_of_false (Option.some_ne_none _) h

theorem toInt_afterCapped {last : Int64} (h : last ≠ Int64.maxValue) :
    (afterCapped last).toInt = last.toInt + 1 := by
  rw [afterCapped, if_neg h, toInt_add_one h]

theorem le_afterCapped (last : Int64) : last ≤ afterCapped last := by
  rw [Int64.le_iff_toInt_le]
  by_cases h : last = Int64.maxValue
  · exact Int.le_of_eq (congrArg Int64.toInt (if_pos h).symm)
  · rw [toInt_afterCapped h]
    omega

theorem beforeCapped_le (n : Position) : beforeCapped n ≤ n := by
  rw [Int64.le_iff_toInt_le, beforeCapped]
  split
  · exact Int.le_refl _
  · next h => rw [toInt_sub_one h]; omega

theorem toInt_beforeCapped {n : Position} (h : 0 ≤ n) : (beforeCapped n).toInt = n.toInt - 1 := by
  have hne : n ≠ Int64.minValue := by
    rintro rfl
    exact absurd h (by decide)
  rw [beforeCapped, if_neg hne, toInt_sub_one hne]

/-- The offset before a position can be stored exactly if the position is one. -/
theorem neg_one_le_beforeCapped_iff {n : Position} : -1 ≤ beforeCapped n ↔ 0 ≤ n := by
  have hneg : (-1 : Int64).toInt = -1 := by decide
  rw [Int64.le_iff_toInt_le, hneg]
  constructor
  · intro h
    rw [Int64.le_iff_toInt_le, Int64.toInt_zero]
    by_cases hmin : n = Int64.minValue
    · subst hmin
      exact absurd h (by decide)
    · rw [beforeCapped, if_neg hmin, toInt_sub_one hmin] at h
      omega
  · intro h
    rw [toInt_beforeCapped h]
    rw [Int64.le_iff_toInt_le, Int64.toInt_zero] at h
    omega

end Position

namespace Offset

def Storable : Offset → Prop
  | concrete last => -1 ≤ last
  | _ => True

instance (o : Offset) : Decidable o.Storable := by
  cases o <;> unfold Storable <;> infer_instance

theorem admits_of_isSentinel {o : Offset} (h : o.isSentinel = true) (last : Int64) :
    o.admits last = true := by
  cases o with
  | concrete _ => cases h
  | _ => rfl

end Offset

namespace OffsetState

/-- Whether a snapshot can hold all offsets of a state. -/
def Storable (s : OffsetState) : Prop := ∀ p o, s.get? p = some o → o.Storable

theorem get?_addIfAbsent (s : OffsetState) (p q : Partition) (o : Offset) :
    (s.addIfAbsent p o).2.get? q = (s.get? q).or (if q = p then some o else none) := by
  unfold addIfAbsent
  split
  · next h =>
    obtain ⟨a, ha⟩ := SortedMap.contains_eq_true_iff.mp h
    by_cases hq : q = p
    · subst hq; simp [ha]
    · simp [hq]
  · next h =>
    have hp := SortedMap.contains_eq_false_iff.mp (Bool.eq_false_iff.mpr h)
    rw [SortedMap.get?_insert]
    by_cases hq : q = p
    · subst hq; simp [hp]
    · simp [hq]

theorem get?_addPartitions (s : OffsetState) (o : Offset) (ps : List Partition) (q : Partition) :
    (s.addPartitions o ps).2.get? q = (s.get? q).or (if q ∈ ps then some o else none) := by
  induction ps generalizing s with
  | nil => simp [addPartitions]
  | cons p ps ih =>
    rw [addPartitions, ih, get?_addIfAbsent, Option.or_assoc]
    by_cases hp : q = p
    · simp [hp]
    · simp [hp]

theorem get?_advance_self {s : OffsetState} {p : Partition} {o : Offset} {last : Int64}
    (hs : s.get? p = some o) (ha : o.admits last = true) :
    (s.advance p last).2.get? p = some (.concrete last) := by
  rw [advance, hs]
  simp only [ha, if_true]
  exact SortedMap.get?_insert_self s p _

theorem get?_advance_of_ne (s : OffsetState) {p q : Partition} (last : Int64) (h : q ≠ p) :
    (s.advance p last).2.get? q = s.get? q := by
  unfold advance
  split
  · rfl
  · split
    · exact SortedMap.get?_insert_of_ne s _ h
    · rfl

theorem get?_concreteOffsets (s : OffsetState) (p : Partition) :
    s.concreteOffsets.get? p = (s.get? p).bind Offset.concrete? :=
  SortedMap.get?_filterMap _ s p

theorem Storable.insert {s : OffsetState} (h : s.Storable) {p : Partition} {o : Offset}
    (ho : o.Storable) : OffsetState.Storable (SortedMap.insert s p o) := by
  intro q a ha
  rw [SortedMap.get?_insert] at ha
  split at ha
  · exact Option.some.inj ha ▸ ho
  · exact h q a ha

theorem Storable.addPartitions {s : OffsetState} (h : s.Storable) {o : Offset} (ho : o.Storable)
    (ps : List Partition) : Storable (s.addPartitions o ps).2 := by
  intro q a ha
  rw [get?_addPartitions] at ha
  rcases Option.or_eq_some_iff.mp ha with ha | ⟨_, ha⟩
  · exact h q a ha
  · split at ha
    · exact Option.some.inj ha ▸ ho
    · cases ha

/-- The offsets that are committed for a storable state are at least `-1`. -/
theorem Storable.concreteOffsets {s : OffsetState} (h : s.Storable) {p : Partition} {last : Int64}
    (hp : s.concreteOffsets.get? p = some last) : -1 ≤ last := by
  rw [get?_concreteOffsets, Option.bind_eq_some_iff] at hp
  obtain ⟨o, ho, hlast⟩ := hp
  have hst := h p o ho
  cases o with
  | concrete n => exact Option.some.inj hlast ▸ hst
  | _ => cases hlast

end OffsetState

end CheckpointedLog
