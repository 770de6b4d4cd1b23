import CheckpointedLog.Document
import CheckpointedLog.Text.Digits
import CheckpointedLog.Yaml.Node

namespace CheckpointedLog.Yaml

namespace Plain

/-- Drops `start` from the beginning. -/
def after? (start : String) (cs : List Char) : Option (List Char) :=
  if start.toList.isPrefixOf cs then some (cs.drop start.length) else none

def isSigned : List Char → Bool
  | '+' :: _ | '-' :: _ => true
  | _ => false

/-- Digits of another base than ten, after its mark. -/
def basedNumeral? (cs : List Char) : Option Nat :=
  ((after? "0x" cs).bind (numeral? 16)).or
    (((after? "0o" cs).bind (numeral? 8)).or ((after? "0b" cs).bind (numeral? 2)))

/-- Whether a zero stands before other digits, which makes them no number. -/
def hasLeadingZero (cs : List Char) : Bool :=
  match (if isSigned cs then cs.tail else cs) with
  | '0' :: c :: rest => (c :: rest).all fun d => (Decimal.digit? d).isSome
  | _ => false

def natural? (cs : List Char) : Option Nat :=
  let digits := (after? "+" cs).getD cs
  if isSigned digits then none
  else (basedNumeral? digits).or (if hasLeadingZero cs then none else Decimal.nat? digits)

def opposite? (cs : List Char) : Option Nat :=
  (after? "-" cs).bind fun digits =>
    (basedNumeral? digits).or (if hasLeadingZero cs then none else Decimal.nat? digits)

def integer? (cs : List Char) : Option Int :=
  ((natural? cs).map Int.ofNat).or ((opposite? cs).map fun n => -(Int.ofNat n))

def flag? (s : String) : Option Bool :=
  if ["true", "True", "TRUE"].contains s then some true
  else if ["false", "False", "FALSE"].contains s then some false
  else none

/-- Whether nothing is meant, spelled out. -/
def isNull (s : String) : Bool := ["null", "Null", "NULL", "~"].contains s

/-- Digits with a point somewhere: their value without the point, and how many follow it. -/
def mantissa? (cs : List Char) : Option (Nat × Nat) :=
  let isDigit (c : Char) : Bool := (Decimal.digit? c).isSome
  let whole := cs.takeWhile isDigit
  match cs.dropWhile isDigit with
  | [] => (Decimal.nat? whole).map (·, 0)
  | '.' :: fraction =>
    if fraction.all isDigit then (Decimal.nat? (whole ++ fraction)).map (·, fraction.length)
    else none
  | _ => none

/-- Whether the text spells a real number that is not too large for a double. -/
def isFinite (cs : List Char) : Bool :=
  let digits := if isSigned cs then cs.tail else cs
  let isMark (c : Char) : Bool := c == 'e' || c == 'E'
  let exponent? := match digits.dropWhile (!isMark ·) with
    | [] => some 0
    | _ :: exponent => Decimal.int? exponent
  match mantissa? (digits.takeWhile (!isMark ·)), exponent? with
  | some (coefficient, places), some exponent =>
    !Decimal.exceedsDoubles coefficient (exponent - places)
  | _, _ => false

/-- Whether the text spells a real number, an infinity or no number at all. -/
def isReal (s : String) : Bool :=
  [".inf", ".Inf", ".INF", "+.inf", "+.Inf", "+.INF", "-.inf", "-.Inf", "-.INF", ".nan", ".NaN",
    ".NAN"].contains s || isFinite s.toList

end Plain

/-- What a scalar stands for when nothing particular is asked for. -/
inductive Resolved where
  | null
  | flag (value : Bool)
  | integer (value : Int)
  | real
  | text (value : String)
deriving DecidableEq, Repr

namespace Resolved

/-- An integer that 64 bits can hold, signed or unsigned. -/
def ofInteger? (value : Int) : Option Resolved :=
  if Int64.minValue.toInt ≤ value ∧ value < UInt64.size then some (integer value) else none

/-- Whether an integer is too large even for 128 bits, signed or unsigned. -/
def isHuge (value : Int) : Bool := value < -(1 <<< 127 : Nat) || (1 <<< 128 : Nat) ≤ value

/-- Resolves a scalar by its form. An integer that needs more than 64 bits has no meaning; one that
needs more than 128 is taken for a real number. -/
def ofForm (s : String) : Option Resolved :=
  if s.isEmpty || Plain.isNull s then some null
  else match Plain.flag? s with
    | some b => some (flag b)
    | none =>
      match (Plain.integer? s.toList).filter (!isHuge ·) with
      | some i => ofInteger? i
      | none =>
        if !Plain.hasLeadingZero s.toList && Plain.isReal s then some real else some (text s)

/-- Resolves a scalar. A local tag has no meaning; a tag of a kind of values demands that kind. -/
def ofScalar? (tag : Option String) (style : ScalarStyle) (s : String) : Option Resolved :=
  match tag with
  | none => if style = .plain then ofForm s else some (text s)
  | some tag =>
    match tag with
    | "tag:yaml.org,2002:bool" => (Plain.flag? s).map flag
    | "tag:yaml.org,2002:int" =>
      ((Plain.integer? s.toList).filter (!isHuge ·)).bind ofInteger?
    | "tag:yaml.org,2002:float" => if Plain.isReal s then some real else none
    | "tag:yaml.org,2002:null" => if Plain.isNull s then some null else none
    | _ => if tag.startsWith "!" then none else some (text s)

end Resolved

namespace Node

/-- Whether the node is written by not writing anything. -/
def isMissing : Node → Bool
  | scalar _ style s => style = .plain && s.isEmpty
  | _ => false

def isLocal (tag : Option String) : Bool := tag.any (·.startsWith "!")

/-- The text of a scalar, however it is written. -/
def text? : Node → Option String
  | scalar _ _ s => some s
  | _ => none

/-- The text of a scalar that may stand for more than a text: a plain one, or a literal block with
the tag of what is asked for. -/
def form? (kind : String) : Node → Option String
  | scalar tag style s =>
    if style = .plain || (style = .literal && tag == some ("tag:yaml.org,2002:" ++ kind)) then some s
    else none
  | _ => none

/-- The pairs of a mapping whose keys are scalars; a missing node is a mapping without pairs. -/
def pairs? : Node → Option (List (String × Node))
  | mapping _ pairs => pairs.mapM fun (k, v) => k.text?.map (·, v)
  | n => if n.isMissing then some [] else none

def items? : Node → Option (List Node)
  | sequence _ items => some items
  | n => if n.isMissing then some [] else none

/-- A choice is a scalar with its name, or nothing with its name as local tag. -/
def choice? : Node → Option String
  | scalar (some tag) style s =>
    match tag.toList with
    | '!' :: name =>
      if style = .plain && (s.isEmpty || Plain.isNull s) then
        some (if name.isEmpty then "!" else String.ofList name)
      else none
    | _ => some s
  | scalar none _ s => some s
  | _ => none

mutual

/-- Whether every scalar can be resolved and there is no local tag. -/
def canKeep : Node → Bool
  | scalar tag style s => (Resolved.ofScalar? tag style s).isSome
  | sequence tag items => !isLocal tag && allCanKeep items
  | mapping tag pairs => !isLocal tag && pairsCanKeep pairs

def allCanKeep : List Node → Bool
  | [] => true
  | n :: ns => n.canKeep && allCanKeep ns

def pairsCanKeep : List (Node × Node) → Bool
  | [] => true
  | (k, v) :: rest => k.canKeep && v.canKeep && pairsCanKeep rest

end

def keptText? : Node → Option String
  | scalar tag style s =>
    match Resolved.ofScalar? tag style s with
    | some (.text s) => some s
    | _ => none
  | _ => none

def keptItems? : Node → Option (List Node)
  | sequence _ items => some items
  | _ => none

instance : Document Node where
  fields? _ := pairs?
  pairs? := pairs?
  items? := items?
  text? := text?
  flag? n := (n.form? "bool").bind Plain.flag?
  signed? n := (n.form? "int").bind fun s => Plain.integer? s.toList
  unsigned? n := (n.form? "int").bind fun s => Plain.natural? s.toList
  choice? := choice?
  canKeep := canKeep
  keptText? := keptText?
  keptItems? := keptItems?

end Node

end CheckpointedLog.Yaml
