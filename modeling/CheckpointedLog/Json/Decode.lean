import CheckpointedLog.Document
import CheckpointedLog.Json.Document

namespace CheckpointedLog.Json.Node

/-- The fields of an object; all names must be texts. -/
def pairs? : Node → Option (List (String × Node))
  | object fields => fields.mapM fun (name, n) => name.map (·, n)
  | _ => none

/-- The fields of a record, which an array gives by their places. -/
def fields? (names : List String) : Node → Option (List (String × Node))
  | array items => if items.length ≤ names.length then some (names.zip items) else none
  | n => n.pairs?

def items? : Node → Option (List Node)
  | array items => some items
  | _ => none

def text? : Node → Option String
  | text s => s
  | _ => none

def flag? : Node → Option Bool
  | bool b => some b
  | _ => none

def integer? : Node → Option Int
  | number (.integer i) => some i
  | _ => none

/-- A choice is its name, or an object that has the name with nothing. -/
def choice? : Node → Option String
  | text s => s
  | object [(name, null)] => name
  | _ => none

/-- How deeply arrays and objects may be nested within a document. -/
def nestingLimit : Nat := 127

instance : Document Node where
  fields? := fields?
  pairs? := pairs?
  items? := items?
  text? := text?
  flag? := flag?
  signed? := integer?
  unsigned? n := n.integer?.bind Int.toNat?
  choice? := choice?
  canKeep := isHoldable (nestingLimit - 1)
  keptText? := text?
  keptItems? := items?

end CheckpointedLog.Json.Node
