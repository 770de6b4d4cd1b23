import CheckpointedLog.Proofs.Fetch.Step

namespace CheckpointedLog

variable {ω : Type}

/-- Whether `b` is a place that a partition at `a` may come to: a concrete offset never decreases, and a
sentinel stays or gives way to a concrete offset, never to another sentinel. -/
def Offset.Precedes (a b : Offset) : Prop :=
  match a with
  | .concrete last => ∃ next, b = .concrete next ∧ last ≤ next
  | sentinel => b = sentinel ∨ ∃ next, b = .concrete next

/-- Every partition of `s` is in `t`, at an offset that is not behind. -/
def OffsetState.Precedes (s t : OffsetState) : Prop :=
  ∀ p a, s.get? p = some a → ∃ b, t.get? p = some b ∧ a.Precedes b

/-- Every partition of `m` is in `n`, with a number that is not smaller. -/
def OffsetMap.Precedes (m n : OffsetMap) : Prop :=
  ∀ p x, m.get? p = some x → ∃ y, n.get? p = some y ∧ x ≤ y

namespace Offset

theorem Precedes.refl (a : Offset) : a.Precedes a := by
  cases a with
  | concrete last => exact ⟨last, rfl, Int64.le_refl last⟩
  | earliest | latest | groupCommitted => exact Or.inl rfl

theorem Precedes.trans {a b c : Offset} (h : a.Precedes b) (h' : b.Precedes c) : a.Precedes c := by
  cases a with
  | concrete last =>
    obtain ⟨next, rfl, hnext⟩ := h
    obtain ⟨later, rfl, hlater⟩ := h'
    exact ⟨later, rfl, Int64.le_trans hnext hlater⟩
  | earliest | latest | groupCommitted =>
    rcases h with rfl | ⟨next, rfl⟩
    · exact h'
    · obtain ⟨later, rfl, -⟩ := h'
      exact Or.inr ⟨later, rfl⟩

theorem precedes_concrete {a : Offset} {last : Int64} (h : a.admits last = true) :
    a.Precedes (.concrete last) := by
  cases a with
  | concrete current => exact ⟨last, rfl, of_decide_eq_true h⟩
  | earliest | latest | groupCommitted => exact Or.inr ⟨last, rfl⟩

end Offset

namespace OffsetState

theorem Precedes.refl (s : OffsetState) : OffsetState.Precedes s s := by
  intro p a ha
  exact ⟨a, ha, .refl a⟩

theorem Precedes.trans {s t u : OffsetState} (h : OffsetState.Precedes s t)
    (h' : OffsetState.Precedes t u) : OffsetState.Precedes s u := by
  intro p a ha
  obtain ⟨b, hb, hab⟩ := h p a ha
  obtain ⟨c, hc, hbc⟩ := h' p b hb
  exact ⟨c, hc, hab.trans hbc⟩

theorem precedes_advance (s : OffsetState) (p : Partition) (last : Int64) :
    OffsetState.Precedes s (s.advance p last).2 := by
  intro q a ha
  by_cases hq : q = p
  · subst hq
    by_cases hadmits : a.admits last = true
    · have hmoved := get?_advance_self ha hadmits
      exact ⟨.concrete last, hmoved, Offset.precedes_concrete hadmits⟩
    · -- The move is refused, so that the offset stays.
      refine ⟨a, ?_, .refl a⟩
      unfold advance
      simp only [ha, if_neg hadmits]
  · exact ⟨a, (get?_advance_of_ne s last hq).trans ha, .refl a⟩

theorem precedes_addPartitions (s : OffsetState) (o : Offset) (ps : List Partition) :
    OffsetState.Precedes s (s.addPartitions o ps).2 := by
  intro p a ha
  refine ⟨a, ?_, .refl a⟩
  rw [get?_addPartitions, ha, Option.some_or]

theorem Precedes.contains {s t : OffsetState} (h : OffsetState.Precedes s t) {p : Partition}
    (hp : s.contains p = true) : t.contains p = true := by
  obtain ⟨a, ha⟩ := SortedMap.contains_eq_true_iff.mp hp
  obtain ⟨b, hb, -⟩ := h p a ha
  exact SortedMap.contains_eq_true_iff.mpr ⟨b, hb⟩

theorem Precedes.maxValue {s t : OffsetState} (h : OffsetState.Precedes s t) {p : Partition}
    (hp : s.get? p = some (.concrete Int64.maxValue)) :
    t.get? p = some (.concrete Int64.maxValue) := by
  obtain ⟨_, ht, next, rfl, hle⟩ := h p _ hp
  have hnext : next = Int64.maxValue := by
    have hlt := next.toInt_lt
    rw [Int64.le_iff_toInt_le, Int64.toInt_maxValue] at hle
    apply Int64.toInt_inj.mp
    rw [Int64.toInt_maxValue]
    omega
  rw [ht, hnext]

theorem Precedes.concreteOffsets {s t : OffsetState} (h : OffsetState.Precedes s t) :
    OffsetMap.Precedes s.concreteOffsets t.concreteOffsets := by
  intro p last hlast
  rw [get?_concreteOffsets, Option.bind_eq_some_iff] at hlast
  obtain ⟨a, ha, hconcrete⟩ := hlast
  obtain ⟨b, hb, hab⟩ := h p a ha
  cases a with
  | concrete current =>
    obtain rfl := Option.some.inj hconcrete
    obtain ⟨next, rfl, hle⟩ := hab
    refine ⟨next, ?_, hle⟩
    rw [get?_concreteOffsets, hb]
    rfl
  | earliest | latest | groupCommitted => cases hconcrete

end OffsetState

namespace OffsetMap

theorem Precedes.refl (m : OffsetMap) : OffsetMap.Precedes m m := by
  intro p x hx
  exact ⟨x, hx, Int64.le_refl x⟩

theorem Precedes.trans {m n k : OffsetMap} (h : OffsetMap.Precedes m n)
    (h' : OffsetMap.Precedes n k) : OffsetMap.Precedes m k := by
  intro p x hx
  obtain ⟨y, hy, hxy⟩ := h p x hx
  obtain ⟨z, hz, hyz⟩ := h' p y hy
  exact ⟨z, hz, Int64.le_trans hxy hyz⟩

end OffsetMap

namespace FetchLoop

theorem precedes_recordPosition (s : OffsetState) (p : Partition) (n : Position) :
    OffsetState.Precedes s (recordPosition s p n) := by
  unfold recordPosition
  split
  · exact s.precedes_advance p _
  · exact .refl s

/-- No step of the fetch loop moves an offset back or drops a partition. -/
theorem Step.precedes {client : BrokerClient ω} {now : Nat} {l l' : FetchLoop} {f f' : Fetcher}
    {w w' : ω} {r : Option Record} (h : Step client now l f w l' f' w' r) :
    OffsetState.Precedes f.offsets f'.offsets := by
  cases h with
  | @recorded _ _ p n => exact precedes_recordPosition f.offsets p n
  | @emitted p r => exact f.offsets.precedes_advance p r.offset
  | begun | known | untracked | positioned | overflowed | unresolved | resolved | polled | settled
  | delivered | skipped | dropped | ended => exact .refl f.offsets

end FetchLoop

end CheckpointedLog
