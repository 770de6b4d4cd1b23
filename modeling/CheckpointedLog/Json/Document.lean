import CheckpointedLog.Text.Digits

/-!
JSON documents as trees. A tree keeps what a reader of the document may object to: repeated names,
texts whose escapes spell no text, numbers that are not integers.
-/
namespace CheckpointedLog.Json

inductive Number where
  /-- A number written without fraction or exponent that fits 64 bits, signed or unsigned. -/
  | integer (value : Int)
  /-- Any other number; it may be too large for a double. -/
  | real (tooLarge : Bool)
deriving DecidableEq, Repr

/-- A text of a document, unless its escapes leave half of a surrogate pair. -/
abbrev Text := Option String

inductive Node where
  | null
  | bool (value : Bool)
  | number (value : Number)
  | text (value : Text)
  | array (items : List Node)
  | object (fields : List (Text × Node))
deriving Inhabited, Repr

namespace Reader

def skipBlanks (cs : List Char) : List Char :=
  cs.dropWhile fun c => c == ' ' || c == '\n' || c == '\t' || c == '\r'

def digits (cs : List Char) : List Char × List Char := cs.span fun c => (Decimal.digit? c).isSome

/-- The integer part: a zero, or digits that do not begin with one. -/
def wholePart (cs : List Char) : Option (List Char × List Char) :=
  match digits cs with
  | ([], _) => none
  | ('0' :: _ :: _, _) => none
  | found => some found

/-- The digits after a point, if there is one. -/
def fractionPart : List Char → Option (Option (List Char) × List Char)
  | '.' :: cs =>
    match digits cs with
    | ([], _) => none
    | (ds, rest) => some (some ds, rest)
  | cs => some (none, cs)

/-- The exponent after an `e`, if there is one. -/
def exponentPart : List Char → Option (Option Int × List Char)
  | c :: cs =>
    if c = 'e' ∨ c = 'E' then
      let (negative, cs) := match cs with
        | '-' :: cs => (true, cs)
        | '+' :: cs => (false, cs)
        | cs => (false, cs)
      match digits cs with
      | (ds, rest) => (Decimal.nat? ds).map fun n =>
        (some (if negative then -(Int.ofNat n) else Int.ofNat n), rest)
    else some (none, c :: cs)
  | [] => some (none, [])

/-- The number that the parts spell. A negative zero is no integer. -/
def numberOf (negative : Bool) (whole : List Char) (fraction : Option (List Char))
    (exponent : Option Int) : Number :=
  let coefficient := (Decimal.nat? (whole ++ fraction.getD [])).getD 0
  let value : Int := if negative then -coefficient else coefficient
  let fits :=
    Int64.minValue.toInt ≤ value ∧ value < UInt64.size ∧ ¬(negative ∧ coefficient = 0)
  if fraction.isNone ∧ exponent.isNone ∧ fits then .integer value
  else .real (Decimal.exceedsDoubles coefficient (exponent.getD 0 - (fraction.getD []).length))

def number (cs : List Char) : Option (Number × List Char) := do
  let (negative, cs) := match cs with
    | '-' :: cs => (true, cs)
    | cs => (false, cs)
  let (whole, cs) ← wholePart cs
  let (fraction, cs) ← fractionPart cs
  let (exponent, cs) ← exponentPart cs
  return (numberOf negative whole fraction exponent, cs)

def hexUnit (a b c d : Char) : Option Nat := numeral? 16 [a, b, c, d]

inductive Element where
  | char (c : Char)
  /-- A 16-bit unit given by its number. -/
  | unit (n : Nat)

/-- The character that a one-letter escape stands for. -/
def escaped? : Char → Option Char
  | '"' => some '"'
  | '\\' => some '\\'
  | '/' => some '/'
  | 'b' => some '\x08'
  | 'f' => some '\x0c'
  | 'n' => some '\n'
  | 'r' => some '\r'
  | 't' => some '\t'
  | _ => none

/-- Reads the elements up to the closing quote; `found` holds the ones before, in reverse. -/
def elements (found : List Element) : (fuel : Nat) → List Char → Option (List Element × List Char)
  | 0, _ => none
  | fuel + 1, cs =>
    match cs with
    | '"' :: rest => some (found.reverse, rest)
    | '\\' :: 'u' :: a :: b :: c :: d :: rest =>
      (hexUnit a b c d).bind fun n => elements (.unit n :: found) fuel rest
    | '\\' :: c :: rest => (escaped? c).bind fun c => elements (.char c :: found) fuel rest
    | c :: rest => if c.toNat < 0x20 then none else elements (.char c :: found) fuel rest
    | [] => none

/-- The characters that the elements spell; surrogates only count in pairs. -/
def spell : List Element → Option (List Char)
  | [] => some []
  | .char c :: rest => (spell rest).map (c :: ·)
  | .unit n :: rest =>
    if 0xD800 ≤ n ∧ n < 0xDC00 then
      match rest with
      | .unit m :: rest =>
        if 0xDC00 ≤ m ∧ m < 0xE000 then
          (spell rest).map (Char.ofNat (0x10000 + (n - 0xD800) * 0x400 + (m - 0xDC00)) :: ·)
        else none
      | _ => none
    else if 0xDC00 ≤ n ∧ n < 0xE000 then none
    else (spell rest).map (Char.ofNat n :: ·)

def text (cs : List Char) : Option (Text × List Char) :=
  (elements [] (cs.length + 1) cs).map fun (found, rest) => ((spell found).map String.ofList, rest)

/-- Drops `word` from the beginning. -/
def word? (word : String) (cs : List Char) : Option (List Char) :=
  if word.toList.isPrefixOf cs then some (cs.drop word.length) else none

mutual

def value : (fuel : Nat) → List Char → Option (Node × List Char)
  | 0, _ => none
  | fuel + 1, cs =>
    match skipBlanks cs with
    | '"' :: cs => (text cs).map fun (s, rest) => (.text s, rest)
    | '[' :: cs =>
      match skipBlanks cs with
      | ']' :: rest => some (.array [], rest)
      | cs => (items [] fuel cs).map fun (found, rest) => (.array found, rest)
    | '{' :: cs =>
      match skipBlanks cs with
      | '}' :: rest => some (.object [], rest)
      | cs => (fields [] fuel cs).map fun (found, rest) => (.object found, rest)
    | 'n' :: cs => (word? "ull" cs).map fun rest => (.null, rest)
    | 't' :: cs => (word? "rue" cs).map fun rest => (.bool true, rest)
    | 'f' :: cs => (word? "alse" cs).map fun rest => (.bool false, rest)
    | cs => (number cs).map fun (n, rest) => (.number n, rest)

/-- Reads the items of an array up to its end; `found` holds the ones before, in reverse. -/
def items (found : List Node) : (fuel : Nat) → List Char → Option (List Node × List Char)
  | 0, _ => none
  | fuel + 1, cs =>
    (value fuel cs).bind fun (item, cs) =>
      match skipBlanks cs with
      | ',' :: cs => items (item :: found) fuel cs
      | ']' :: rest => some ((item :: found).reverse, rest)
      | _ => none

/-- Reads the fields of an object up to its end; `found` holds the ones before, in reverse. -/
def fields (found : List (Text × Node)) :
    (fuel : Nat) → List Char → Option (List (Text × Node) × List Char)
  | 0, _ => none
  | fuel + 1, cs =>
    match skipBlanks cs with
    | '"' :: cs =>
      (text cs).bind fun (name, cs) =>
        match skipBlanks cs with
        | ':' :: cs =>
          (value fuel cs).bind fun (item, cs) =>
            match skipBlanks cs with
            | ',' :: cs => fields ((name, item) :: found) fuel cs
            | '}' :: rest => some (((name, item) :: found).reverse, rest)
            | _ => none
        | _ => none
    | _ => none

end

end Reader

/-- Reads a document; only blanks may follow it. -/
def Node.parse? (s : String) : Option Node :=
  let cs := s.toList
  (Reader.value (2 * cs.length + 2) cs).bind fun (node, rest) =>
    if (Reader.skipBlanks rest).isEmpty then some node else none

mutual

/-- Whether the document could be kept as a value of unknown shape that nests at most `depth`
arrays and objects: all its texts are texts, and no number is too large for a double. -/
def Node.isHoldable (depth : Nat) : Node → Bool
  | .null => true
  | .bool _ => true
  | .number n => n != .real true
  | .text s => s.isSome
  | .array items =>
    match depth with
    | 0 => false
    | depth + 1 => allHoldable depth items
  | .object fields =>
    match depth with
    | 0 => false
    | depth + 1 => fieldsHoldable depth fields

def allHoldable (depth : Nat) : List Node → Bool
  | [] => true
  | n :: ns => n.isHoldable depth && allHoldable depth ns

def fieldsHoldable (depth : Nat) : List (Text × Node) → Bool
  | [] => true
  | (name, n) :: rest => name.isSome && n.isHoldable depth && fieldsHoldable depth rest

end

end CheckpointedLog.Json
