namespace CheckpointedLog

/-- What can be read from a node of a document. A node may be kept unread while its siblings are read
and be looked at later; what is then found can differ from what is found at once. -/
class Document (ν : Type) where
  /-- The fields of a record that has fields of the given names, as far as they are written. -/
  fields? (names : List String) : ν → Option (List (String × ν))
  /-- The named values of a record whose names are not known beforehand. -/
  pairs? : ν → Option (List (String × ν))
  items? : ν → Option (List ν)
  text? : ν → Option String
  flag? : ν → Option Bool
  /-- A number that may be negative. -/
  signed? : ν → Option Int
  /-- A number that may not be negative. -/
  unsigned? : ν → Option Nat
  /-- The name of one of several choices. -/
  choice? : ν → Option String
  /-- Whether the node can be kept while it is not known what it stands for. -/
  canKeep : ν → Bool
  keptText? : ν → Option String
  keptItems? : ν → Option (List ν)

namespace Document

variable {ν α : Type} [Document ν]

def int32? (n : ν) : Option Int32 :=
  (signed? n).bind fun i =>
    if Int32.minValue.toInt ≤ i ∧ i ≤ Int32.maxValue.toInt then some (Int32.ofInt i) else none

def int64? (n : ν) : Option Int64 :=
  (signed? n).bind fun i =>
    if Int64.minValue.toInt ≤ i ∧ i ≤ Int64.maxValue.toInt then some (Int64.ofInt i) else none

def uint32? (n : ν) : Option UInt32 :=
  (unsigned? n).bind fun i => if i < UInt32.size then some (UInt32.ofNat i) else none

def uint64? (n : ν) : Option UInt64 :=
  (unsigned? n).bind fun i => if i < UInt64.size then some (UInt64.ofNat i) else none

def list? (read : ν → Option α) (n : ν) : Option (List α) := (items? n).bind (·.mapM read)

def required (fields : List (String × ν)) (name : String) (read : ν → Option α) : Option α :=
  match fields.filter (·.1 == name) with
  | [field] => read field.2
  | _ => none

def optional (fields : List (String × ν)) (name : String) (read : ν → Option α) (default : α) :
    Option α :=
  match fields.filter (·.1 == name) with
  | [] => some default
  | [field] => read field.2
  | _ => none

end Document

end CheckpointedLog
