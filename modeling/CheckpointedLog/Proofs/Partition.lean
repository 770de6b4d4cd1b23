import CheckpointedLog.Partition
import CheckpointedLog.Proofs.Text.Digits

namespace CheckpointedLog.Partition

variable {sep : Char} {cs front back : List Char}

theorem splitAtLast_of_not_mem (h : sep ∉ cs) : splitAtLast sep cs = none := by
  induction cs with
  | nil => rfl
  | cons c cs ih =>
    have hne : c ≠ sep := fun heq => h (heq ▸ List.mem_cons_self ..)
    have hrest : splitAtLast sep cs = none := ih fun hmem => h (List.mem_cons_of_mem c hmem)
    rw [splitAtLast, hrest]
    exact if_neg hne

/-- A separator with no other one behind it is the last one, whatever is in front of it. -/
theorem splitAtLast_append (h : sep ∉ back) (front : List Char) :
    splitAtLast sep (front ++ sep :: back) = some (front, back) := by
  induction front with
  | nil =>
    rw [List.nil_append, splitAtLast, splitAtLast_of_not_mem h]
    exact if_pos rfl
  | cons c front ih => rw [List.cons_append, splitAtLast, ih]

theorem eq_append_of_splitAtLast (h : splitAtLast sep cs = some (front, back)) :
    cs = front ++ sep :: back := by
  induction cs generalizing front with
  | nil => cases h
  | cons c cs ih =>
    unfold splitAtLast at h
    split at h
    next front' back' hrest =>
      obtain ⟨rfl, rfl⟩ := Prod.mk.inj (Option.some.inj h)
      rw [ih hrest, List.cons_append]
    next =>
      obtain ⟨hc, h⟩ := Option.ite_none_right_eq_some.mp h
      obtain ⟨rfl, rfl⟩ := Prod.mk.inj (Option.some.inj h)
      rw [hc, List.nil_append]

theorem colon_not_mem {digits : List Char} {n : Int} (h : Decimal.SpellsSigned digits n) :
    ':' ∉ digits := h.not_mem (by decide) (by decide) (by decide)

theorem toList_append_colon (topic : String) (digits : List Char) :
    (topic ++ ":" ++ String.ofList digits).toList = topic.toList ++ ':' :: digits := by
  simp only [String.toList_append, String.toList_ofList, List.append_assoc]
  rfl

theorem parse?_eq_some_iff {s : String} {p : Partition} : parse? s = some p ↔
    p.topic ≠ "" ∧
      ∃ digits, s = p.topic ++ ":" ++ String.ofList digits ∧ Decimal.SpellsSigned digits p.index.toInt := by
  have hnonempty : p.topic ≠ "" ↔ ¬ p.topic.toList.isEmpty = true := by
    rw [List.isEmpty_iff, ← String.toList_empty, String.toList_inj]
  constructor
  · intro h
    obtain ⟨⟨topic, digits⟩, hsplit, h⟩ := Option.bind_eq_some_iff.mp h
    obtain ⟨htopic, h⟩ := Option.ite_none_left_eq_some.mp h
    obtain ⟨i, hi, rfl⟩ := Option.map_eq_some_iff.mp h
    rw [hnonempty, String.toList_ofList]
    refine ⟨htopic, digits, ?_, Decimal.int32?_eq_some_iff.mp hi⟩
    apply String.toList_inj.mp
    rw [toList_append_colon, String.toList_ofList]
    exact eq_append_of_splitAtLast hsplit
  · intro h
    obtain ⟨htopic, digits, rfl, hdigits⟩ := h
    have hsplit := splitAtLast_append (colon_not_mem hdigits) p.topic.toList
    have hindex := Decimal.int32?_eq_some_iff.mpr hdigits
    rw [parse?, toList_append_colon, hsplit]
    simp only [Option.bind_some, if_neg (hnonempty.mp htopic), hindex, Option.map_some,
      String.ofList_toList]

/-- The topic, a colon and the index in decimal digits, with a sign only if it is negative. -/
def argument (p : Partition) : String := p.topic ++ ":" ++ toString p.index.toInt

theorem argument_eq (p : Partition) :
    p.argument = p.topic ++ ":" ++ String.ofList (toString p.index.toInt).toList := by
  rw [argument, String.ofList_toList]

theorem splitAtLast_argument (p : Partition) : splitAtLast ':' p.argument.toList =
    some (p.topic.toList, (toString p.index.toInt).toList) := by
  have hcolon : ':' ∉ (toString p.index.toInt).toList :=
    colon_not_mem (Decimal.spellsSigned_toString p.index.toInt)
  rw [argument_eq, toList_append_colon]
  exact splitAtLast_append hcolon p.topic.toList

theorem argument_injective : Function.Injective argument := by
  intro p q h
  have hsplit : some (p.topic.toList, (toString p.index.toInt).toList) =
      some (q.topic.toList, (toString q.index.toInt).toList) := by
    rw [← splitAtLast_argument, ← splitAtLast_argument, h]
  obtain ⟨htopic, hdigits⟩ := Prod.mk.inj (Option.some.inj hsplit)
  -- The digits of an index are read back as the index.
  have hread (p : Partition) : Decimal.int32? (toString p.index.toInt).toList = some p.index :=
    Decimal.int32?_eq_some_iff.mpr (Decimal.spellsSigned_toString p.index.toInt)
  have hindex : some p.index = some q.index := by rw [← hread p, ← hread q, hdigits]
  calc p = ⟨p.topic, p.index⟩ := rfl
    _ = ⟨q.topic, q.index⟩ := by rw [String.toList_inj.mp htopic, Option.some.inj hindex]
    _ = q := rfl

/-- A text is read as a partition if and only if it consists of a topic that is not empty, a colon, and
digits that spell the index, with or without a sign. Each partition has one written form, which no other
partition shares, and it is read back unless the topic is empty. -/
theorem parse?_accepts_exactly :
    (∀ (s : String) (p : Partition), parse? s = some p ↔
      p.topic ≠ "" ∧ ∃ digits, s = p.topic ++ ":" ++ String.ofList digits ∧
        Decimal.SpellsSigned digits p.index.toInt) ∧
    (∀ p : Partition, parse? p.argument = some p ↔ p.topic ≠ "") ∧
    Function.Injective argument := by
  refine ⟨fun s p => parse?_eq_some_iff, fun p => ?_, argument_injective⟩
  rw [parse?_eq_some_iff, argument_eq]
  constructor
  · intro h
    exact h.1
  · intro htopic
    exact ⟨htopic, _, rfl, Decimal.spellsSigned_toString p.index.toInt⟩

example : parse? "a:b:-007" = some ⟨"a:b", -7⟩ := by decide +kernel

end CheckpointedLog.Partition
