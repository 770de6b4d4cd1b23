import CheckpointedLog.SortedMap
import CheckpointedLog.Text.Digits

namespace CheckpointedLog

structure Partition where
  topic : String
  index : Int32
deriving DecidableEq, Inhabited, Repr

namespace Partition

/-- By topic in code point order, which is also the order of the UTF-8 bytes, then by index. -/
instance : Ord Partition := ⟨compareLex (compareOn topic) (compareOn index)⟩

instance : Std.TransOrd Partition :=
  inferInstanceAs (Std.TransCmp (compareLex (compareOn topic) (compareOn index)))

theorem compare_eq_eq_iff {p q : Partition} : compare p q = .eq ↔ p = q := by
  obtain ⟨s, i⟩ := p
  obtain ⟨t, j⟩ := q
  change (compare s t).then (compare i j) = .eq ↔ _
  rw [Ordering.then_eq_eq, Std.LawfulEqCmp.compare_eq_iff_eq, Std.LawfulEqCmp.compare_eq_iff_eq]
  simp

instance : Std.LawfulEqOrd Partition where
  eq_of_compare := compare_eq_eq_iff.mp
  compare_self := compare_eq_eq_iff.mpr rfl

def display (p : Partition) : String := p.topic ++ "-" ++ toString p.index.toInt

/-- Splits a text at the last `sep`; the separator is in neither part. -/
def splitAtLast (sep : Char) : List Char → Option (List Char × List Char)
  | [] => none
  | c :: cs =>
    match splitAtLast sep cs with
    | some (front, back) => some (c :: front, back)
    | none => if c = sep then some ([], cs) else none

/-- Reads `topic:index`. The topic may contain colons but must not be empty. -/
def parse? (s : String) : Option Partition :=
  (splitAtLast ':' s.toList).bind fun (topic, index) =>
    if topic.isEmpty then none
    else (Decimal.int32? index).map fun i => ⟨String.ofList topic, i⟩

end Partition

/-- The given partitions, each once and in ascending order. -/
def Partition.ascending (ps : List Partition) : List Partition :=
  (SortedMap.ofList (ps.map (·, ()))).keys

end CheckpointedLog
