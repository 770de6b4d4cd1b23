import CheckpointedLog.Libraries
import CheckpointedLog.Pattern.NamedClass
import CheckpointedLog.Pattern.Regex
import CheckpointedLog.Text.Digits

/-!
The written form of regular expressions. Reading goes from left to right; flags that are set inside a
group hold to the end of the group. Expressions that nest too deeply or would need too large an
automaton are refused.
-/
namespace CheckpointedLog

namespace Pattern

/-- The flags that change what an expression means. -/
structure Flags where
  ignoreCase : Bool := false
  multiLine : Bool := false
  dotAll : Bool := false
  unicode : Bool := true
  crlf : Bool := false
  /-- Blanks and comments between the parts of the expression are skipped. -/
  spaced : Bool := false

/-- The letters of the flags; `U` exchanges which of several matches is preferred. -/
def Flags.letters : List Char := ['i', 'm', 's', 'U', 'u', 'R', 'x']

def Flags.set (letter : Char) (on : Bool) (f : Flags) : Flags :=
  match letter with
  | 'i' => { f with ignoreCase := on }
  | 'm' => { f with multiLine := on }
  | 's' => { f with dotAll := on }
  | 'u' => { f with unicode := on }
  | 'R' => { f with crlf := on }
  | 'x' => { f with spaced := on }
  | _ => f

/-- What is still to be read, the flags that hold, and the names of the groups so far. -/
structure Source where
  rest : List Char
  flags : Flags := {}
  names : List (List Char) := []

abbrev Read := StateT Source Option

/-- A part that was read and how deeply it nests. -/
structure Nested (α : Type) where
  value : α
  depth : Nat := 0

def depthAround {α : Type} (parts : List (Nested α)) : Nat :=
  (parts.map (·.depth)).foldl max 0 + 1

def peek : Read (Option Char) := do return (← get).rest.head?

def drop (n : Nat := 1) : Read Unit := modify fun s => { s with rest := s.rest.drop n }

/-- The next character, which is gone past. -/
def next : Read Char := do
  let some c ← peek | failure
  drop
  return c

/-- Goes past a text if it is next; also tells whether it was. -/
def skip? (text : String) : Read Bool := do
  if text.toList.isPrefixOf (← get).rest then drop text.length; return true
  else return false

/-- Blanks and comments at the beginning of a text are left out. -/
def withoutBlanks : (inComment : Bool) → List Char → List Char
  | _, [] => []
  | true, c :: cs => withoutBlanks (c != '\n') cs
  | false, c :: cs =>
    if Text.isWhitespace c then withoutBlanks false cs
    else if c == '#' then withoutBlanks true cs
    else c :: cs

def skipBlanks : Read Unit :=
  modify fun s => if s.flags.spaced then { s with rest := withoutBlanks false s.rest } else s

/-- Goes past one character and the blanks after it; something must follow. -/
def step : Read Char := do
  drop
  skipBlanks
  let some c ← peek | failure
  return c

/-- Reads characters of a kind, with blanks between them where they are allowed. -/
def spacedRun (kind : Char → Bool) (found : List Char) : (fuel : Nat) → Read (List Char)
  | 0 => failure
  | fuel + 1 => do
    match ← peek with
    | some c =>
      if kind c then drop; skipBlanks; spacedRun kind (c :: found) fuel
      else return found.reverse
    | none => return found.reverse

def run (kind : Char → Bool) : Read (List Char) := do
  spacedRun kind [] ((← get).rest.length + 1)

/-- Adds the characters that differ in case only, where case is ignored. -/
def fold (flags : Flags) (c : CharClass) : CharClass :=
  if flags.ignoreCase then if flags.unicode then c.anyCase else c.anyAsciiCase else c

/-- What a character between other characters stands for. -/
inductive Primitive where
  /-- A character; `asByte` tells whether two hexadecimal digits were written for it. -/
  | literal (c : Char) (asByte : Bool)
  | charClass (c : CharClass)
  | assertion (a : Assertion)
  | dot

/-- A literal. Written as a byte, it must be ASCII unless characters are meant. -/
def literal (flags : Flags) (c : Char) (asByte : Bool) : Option CharClass :=
  if asByte && !flags.unicode && 0x80 ≤ c.toNat then none else some (.single c.toNat)

/-- A literal within a class. A class of bytes has no other characters than ASCII. -/
def classLiteral (flags : Flags) (c : Char) : Option Nat :=
  if !flags.unicode && 0x80 ≤ c.toNat then none else some c.toNat

/-- The complement if `negated`. -/
def negateIf (negated : Bool) (c : CharClass) : CharClass := if negated then c.compl else c

/-- A class that may match whatever it has; of bytes it must have ASCII only. -/
def checked (flags : Flags) (c : CharClass) : Option CharClass :=
  if flags.unicode || c.isAsciiOnly then some c else none

/-- The classes `\d`, `\s`, `\w` and, in capital letters, their complements. -/
def letterClass (flags : Flags) (c : Char) : Option CharClass := do
  let rs ← NamedClass.ofLetter? flags.unicode c.toLower
  checked flags (negateIf c.isUpper (.ranges rs))

/-- Splits a text around the first place where `sep` stands. -/
def splitAround? (sep : List Char) : List Char → Option (List Char × List Char)
  | [] => if sep.isEmpty then some ([], []) else none
  | c :: cs =>
    if sep.isPrefixOf (c :: cs) then some ([], (c :: cs).drop sep.length)
    else (splitAround? sep cs).map fun (front, back) => (c :: front, back)

/-- The class that stands between the braces of `\p`. -/
def propertyClass? (name : List Char) : Option CharClass :=
  match splitAround? ['!', '='] name with
  | some (property, value) => NamedClass.ofValue? property value
  | none =>
    match (splitAround? [':'] name).or (splitAround? ['='] name) with
    | some (property, value) => NamedClass.ofValue? property value
    | none => NamedClass.ofName? name

/-- Reads the rest of `\p` or `\P`, from the letter on. -/
def property : Read CharClass := do
  let negated := (← peek) == some 'P'
  let c ← step
  let found ← (do
    if c == '\x7b' then
      drop
      skipBlanks
      let name ← run (· != '\x7d')
      let _ ← next
      return propertyClass? name
    else if c == '\\' then failure
    else
      drop
      skipBlanks
      return NamedClass.ofName? [c] : Read (Option CharClass))
  let flags := (← get).flags
  let some c := found | failure
  if flags.unicode then return negateIf negated (fold flags c) else failure

def metaChars : List Char := "\\.+*?()|[]\x7b\x7d^$#&-~".toList

/-- Whether a backslash may stand before the character without need. -/
def isEscapable (c : Char) : Bool := c.toNat < 0x80 && !c.isAlphanum && c != '<' && c != '>'

/-- The control character that a letter after a backslash stands for. -/
def control? : Char → Option Char
  | 'a' => some '\x07'
  | 'f' => some '\x0c'
  | 't' => some '\t'
  | 'n' => some '\n'
  | 'r' => some '\r'
  | 'v' => some '\x0b'
  | _ => none

def charOf? (digits : List Char) : Option Char := do
  let n ← numeral? 16 digits
  if n.isValidChar then return Char.ofNat n else none

/-- Reads exactly `n` more hexadecimal digits. -/
def hexDigits (found : List Char) : (n : Nat) → Read (List Char)
  | 0 => return found.reverse
  | n + 1 => do
    let c ← next
    skipBlanks
    if (digitOf? 16 c).isSome then hexDigits (c :: found) n else failure

/-- Reads the rest of `\x`, `\u` or `\U`, from the letter on. -/
def hexEscape (letter : Char) : Read Primitive := do
  let c ← step
  if c == '\x7b' then
    drop
    skipBlanks
    let digits ← run (· != '\x7d')
    let _ ← next
    skipBlanks
    return .literal (← charOf? digits) false
  else
    let digits ← hexDigits [] (if letter == 'x' then 2 else if letter == 'u' then 4 else 8)
    return .literal (← charOf? digits) (letter == 'x')

/-- The assertions that are named in braces after `\b`. -/
def namedBoundary? (ascii : Bool) : String → Option Assertion
  | "start" => some (.wordStart ascii)
  | "end" => some (.wordEnd ascii)
  | "start-half" => some (.wordStartHalf ascii)
  | "end-half" => some (.wordEndHalf ascii)
  | _ => none

/-- Reads what follows `\b`: a name in braces, or nothing that belongs to it. -/
def boundary (ascii : Bool) : Read Primitive := do
  let before ← get
  if (← peek) != some '\x7b' then return .assertion (.wordBoundary ascii)
  let isNameChar (c : Char) : Bool := c.isAlpha || c == '-'
  if isNameChar (← step) then
    let name ← run isNameChar
    if (← next) != '\x7d' then failure
    return .assertion (← namedBoundary? ascii (String.ofList name))
  else
    set before
    return .assertion (.wordBoundary ascii)

def escape : Read Primitive := do
  let some c ← peek | failure
  let flags := (← get).flags
  let ascii := !flags.unicode
  if c == 'x' || c == 'u' || c == 'U' then hexEscape c
  else if c == 'p' || c == 'P' then return .charClass (← property)
  else
    drop
    if ['d', 's', 'w', 'D', 'S', 'W'].contains c then return .charClass (← letterClass flags c)
    else if metaChars.contains c || isEscapable c then return .literal c false
    else match control? c with
      | some c => return .literal c false
      | none =>
        match c with
        | 'A' => return .assertion .textStart
        | 'z' => return .assertion .textEnd
        | 'b' => boundary ascii
        | 'B' => return .assertion (.noWordBoundary ascii)
        | '<' => return .assertion (.wordStart ascii)
        | '>' => return .assertion (.wordEnd ascii)
        | _ => failure

/-- The operations between the parts of a class. -/
inductive Operation where
  | inter
  | diff
  | symmDiff

/-- The operation that a doubled character stands for. -/
def operation? : Char → Option Operation
  | '&' => some .inter
  | '-' => some .diff
  | '~' => some .symmDiff
  | _ => none

/-- The class that an operation makes. Case is ignored on both sides of it. -/
def Operation.apply (flags : Flags) (o : Operation) (a b : CharClass) : CharClass :=
  let a := fold flags a
  let b := fold flags b
  match o with
  | inter => .inter a b
  | diff => a.diff b
  | symmDiff => a.symmDiff b

/-- The union of the items of a class, given in reverse. -/
def unionOf : List (Nested CharClass) → Nested CharClass
  | [] => ⟨.empty, 0⟩
  | [c] => c
  | cs => ⟨(cs.map (·.value)).foldr .union .empty, depthAround cs⟩

/-- Applies the operation that waits for its right side. -/
def combine (flags : Flags) (pending : Option (Nested CharClass × Operation))
    (right : Nested CharClass) : Nested CharClass :=
  match pending with
  | none => right
  | some (left, o) => ⟨o.apply flags left.value right.value, depthAround [left, right]⟩

/-- Reads `[:name:]` or `[:^name:]` if it is next. -/
def posixClass? : Read (Option CharClass) := do
  let before ← get
  let fail : Read (Option CharClass) := do set before; return none
  if !(← skip? "[:") then return none
  let negated ← skip? "^"
  let rest := (← get).rest
  let name := rest.takeWhile (· != ':')
  drop name.length
  if !(← skip? ":]") then fail
  else match NamedClass.posix.lookup (String.ofList name) with
    | some rs => return some (negateIf negated (.ranges rs))
    | none => fail

/-- Reads one element of a class: a character or an escape. -/
def classElement : Read Primitive := do
  let c ← next
  if c == '\\' then escape else return .literal c false

def classOfElement (flags : Flags) : Primitive → Option CharClass
  | .literal c asByte => do
    let _ ← literal flags c asByte
    return .single (← classLiteral flags c)
  | .charClass c => some c
  | _ => none

def endOfRange (flags : Flags) : Primitive → Option Nat
  | .literal c asByte => do
    let _ ← literal flags c asByte
    classLiteral flags c
  | _ => none

/-- The character after the hyphen that is next, behind blanks where they are allowed. -/
def peekAfterHyphen : Read (Option Char) := do
  let before ← get
  drop
  skipBlanks
  let c ← peek
  set before
  return c

/-- Reads one element of a class or a range from one element to another. -/
def classRange : Read CharClass := do
  let first ← classElement
  skipBlanks
  let flags := (← get).flags
  let some c ← peek | failure
  let after ← peekAfterHyphen
  if c != '-' || after == some ']' || after == some '-' then classOfElement flags first
  else
    let _ ← step
    let last ← classElement
    let low ← endOfRange flags first
    let high ← endOfRange flags last
    if low ≤ high then return .ranges [(low, high)] else failure

def leadingHyphens (found : List (Nested CharClass)) :
    (fuel : Nat) → Read (List (Nested CharClass))
  | 0 => failure
  | fuel + 1 => do
    if (← peek) == some '-' then
      let _ ← step
      leadingHyphens (⟨.single '-'.toNat, 0⟩ :: found) fuel
    else return found

/-- Reads the beginning of a class: whether it is a complement, and the characters that stand for
themselves only there. -/
def classStart : Read (Bool × List (Nested CharClass)) := do
  let c ← step
  let negated := c == '^'
  if negated then let _ ← step
  let found ← leadingHyphens [] ((← get).rest.length + 1)
  if found.isEmpty && (← peek) == some ']' then
    let _ ← step
    return (negated, [⟨.single ']'.toNat, 0⟩])
  else return (negated, found)

mutual

def bracketed : (fuel : Nat) → Read (Nested CharClass)
  | 0 => failure
  | fuel + 1 => do
    let (negated, found) ← classStart
    let body ← classBody none found fuel
    let flags := (← get).flags
    return ⟨← checked flags (negateIf negated (fold flags body.value)), body.depth + 1⟩

/-- Reads the items of a class and the closing bracket. `found` holds the items since the last
operation, in reverse; `pending` is that operation with its left side. -/
def classBody (pending : Option (Nested CharClass × Operation))
    (found : List (Nested CharClass)) : (fuel : Nat) → Read (Nested CharClass)
  | 0 => failure
  | fuel + 1 => do
    skipBlanks
    let flags := (← get).flags
    match (← get).rest with
    | [] => failure
    | '[' :: _ =>
      match ← posixClass? with
      | some c => classBody pending (⟨c, 0⟩ :: found) fuel
      | none =>
        let c ← bracketed fuel
        classBody pending (c :: found) fuel
    | ']' :: _ =>
      drop
      return combine flags pending (unionOf found)
    | c :: rest =>
      match (operation? c).filter fun _ => rest.head? == some c with
      | some o =>
        drop 2
        classBody (some (combine flags pending (unionOf found), o)) [] fuel
      | none =>
        let c ← classRange
        classBody pending (⟨c, 0⟩ :: found) fuel

end

/-- An item of a sequence; a mere setting of flags cannot be repeated. -/
structure Item where
  part : Nested Regex
  isRepeatable : Bool := true

def ofPrimitive (flags : Flags) : Primitive → Option Regex
  | .literal c asByte => (literal flags c asByte).map fun c => .char (fold flags c)
  | .charClass c => some (.char c)
  | .assertion a => some (.assertion a)
  | .dot =>
    if !flags.unicode then none
    else if flags.dotAll then some (.char (.compl .empty))
    else if flags.crlf then some (.char (.compl (.ranges [(0xA, 0xA), (0xD, 0xD)])))
    else some (.char (.compl (.single 0xA)))

def primitive : Read Item := do
  let flags := (← get).flags
  let c ← next
  let p ← (match c with
    | '\\' => escape
    | '.' => return .dot
    | '^' => return .assertion (if flags.multiLine then .lineStart flags.crlf else .textStart)
    | '$' => return .assertion (if flags.multiLine then .lineEnd flags.crlf else .textEnd)
    | c => return .literal c false : Read Primitive)
  return ⟨⟨← ofPrimitive flags p, 0⟩, true⟩

def concatOf : List Item → Nested Regex
  | [] => ⟨.empty, 0⟩
  | [i] => i.part
  | is => ⟨(is.map (·.part.value)).foldr .concat .empty, depthAround (is.map (·.part))⟩

def alternationOf : List (Nested Regex) → Nested Regex
  | [] => ⟨.empty, 0⟩
  | [r] => r
  | r :: rs => ⟨rs.foldl (fun a b => .alt a b.value) r.value, depthAround (r :: rs)⟩

def lastItem : List Item → Read (Nested Regex × List Item)
  | i :: before => if i.isRepeatable then return (i.part, before) else failure
  | [] => failure

def repeatLast (found : List Item) (least : Nat) (most : Option Nat) : Read (List Item) := do
  let (r, before) ← lastItem found
  return ⟨⟨.repeated r.value least most, r.depth + 1⟩, true⟩ :: before

def count : Read (Option Nat) := do
  modify fun s => { s with rest := s.rest.dropWhile Text.isWhitespace }
  let digits ← run fun c => (Decimal.digit? c).isSome
  modify fun s => { s with rest := s.rest.dropWhile Text.isWhitespace }
  skipBlanks
  match Decimal.nat? digits with
  | none => return none
  | some n => if n < UInt32.size then return some n else failure

def counts : Read (Nat × Option Nat) := do
  let _ ← step
  let least ← count
  let some c ← peek | failure
  if c == ',' then
    if (← step) == '\x7d' then
      drop
      return (← least, none)
    else
      let least ← least
      let some most ← count | failure
      if (← next) == '\x7d' && least ≤ most then return (least, some most) else failure
  else
    let least ← least
    if (← next) == '\x7d' then return (least, some least) else failure

/-- Reads the letters of flags up to `:` or `)`, which is not gone past. -/
def flagLetters (seen : List Char) : (fuel : Nat) → Read (List Char)
  | 0 => failure
  | fuel + 1 => do
    let some c ← peek | failure
    if c == ':' || c == ')' then return seen.reverse
    else if (c == '-' || Flags.letters.contains c) && !seen.contains c then
      drop
      flagLetters (c :: seen) fuel
    else failure

/-- Sets the flags before a hyphen and clears those after it. -/
def applyLetters (letters : List Char) (flags : Flags) : Flags :=
  let cleared := (letters.dropWhile (· != '-')).foldl (fun f c => f.set c false) flags
  (letters.takeWhile (· != '-')).foldl (fun f c => f.set c true) cleared

/-- Whether a character may stand in the name of a group. -/
def isNameChar (first : Bool) (c : Char) : Bool :=
  c == '_' || Text.alphabetic.has c.toNat
    || (!first && (c == '.' || c == '[' || c == ']'
      || Text.Category.numbers.contains (Text.Category.ofChar c)))

/-- Reads the name of a group and the `>` after it. No two groups have the same name. -/
def groupName : Read Unit := do
  let s ← get
  let name := s.rest.takeWhile (· != '>')
  drop name.length
  let _ ← next
  if name.isEmpty || s.names.contains name then failure
  if isNameChar true (name.headD ' ') && name.tail.all (isNameChar false) then
    modify fun s => { s with names := name :: s.names }
  else failure

mutual

/-- Reads alternatives up to the end of a group or of the expression. -/
def alternatives (found : List (Nested Regex)) : (fuel : Nat) → Read (Nested Regex)
  | 0 => failure
  | fuel + 1 => do
    let branch ← sequence [] fuel
    if ← skip? "|" then alternatives (branch :: found) fuel
    else return alternationOf (branch :: found).reverse

/-- Reads one alternative; `found` holds its items so far, in reverse. -/
def sequence (found : List Item) : (fuel : Nat) → Read (Nested Regex)
  | 0 => failure
  | fuel + 1 => do
    skipBlanks
    let some c ← peek | return concatOf found.reverse
    match c with
    | '|' | ')' => return concatOf found.reverse
    | '(' =>
      let i ← group fuel
      sequence (i :: found) fuel
    | '[' =>
      let c ← bracketed (2 * (← get).rest.length + 2)
      sequence (⟨⟨.char c.value, c.depth⟩, true⟩ :: found) fuel
    | '?' =>
      drop
      let _ ← skip? "?"
      sequence (← repeatLast found 0 (some 1)) fuel
    | '*' =>
      drop
      let _ ← skip? "?"
      sequence (← repeatLast found 0 none) fuel
    | '+' =>
      drop
      let _ ← skip? "?"
      sequence (← repeatLast found 1 none) fuel
    | '\x7b' =>
      let (least, most) ← counts
      skipBlanks
      let _ ← skip? "?"
      sequence (← repeatLast found least most) fuel
    | _ =>
      let i ← primitive
      sequence (i :: found) fuel

/-- Reads a group, or flags in parentheses. -/
def group : (fuel : Nat) → Read Item
  | 0 => failure
  | fuel + 1 => do
    drop
    skipBlanks
    let flags := (← get).flags
    let inner : Read Item := do
      let r ← alternatives [] fuel
      if (← next) != ')' then failure
      modify fun s => { s with flags := flags }
      return ⟨⟨r.value, r.depth + 1⟩, true⟩
    if (← skip? "?=") || (← skip? "?!") || (← skip? "?<=") || (← skip? "?<!") then failure
    else if ← skip? "?P<" <||> skip? "?<" then
      groupName
      inner
    else if ← skip? "?" then
      let letters ← flagLetters [] (Flags.letters.length + 2)
      if letters.getLast? == some '-' then failure
      modify fun s => { s with flags := applyLetters letters flags }
      if (← next) == ':' then inner
      else if letters.isEmpty then failure
      else return ⟨⟨.empty, 0⟩, false⟩
    else inner

end

end Pattern

namespace Regex

/-- An estimate of the bytes that an automaton for the expression takes: 32 for a state and 8 for a
transition, where a range of characters beyond ASCII needs a state with several transitions. -/
def cost : Regex → Nat
  | empty => 32
  | char c => 32 + 8 * c.rangeCounts.1 + 28 * c.rangeCounts.2
  | assertion _ => 32
  | concat r s => r.cost + s.cost
  | alt r s => r.cost + s.cost + 32
  | repeated r least most =>
    match most with
    | none => (max least 1) * r.cost + 32
    | some most => most * r.cost + (most - least) * 32 + 32

def depthLimit : Nat := 250

/-- The size that an automaton may have, in bytes. -/
def costLimit : Nat := 10 * 1024 * 1024

def parse? (s : String) : Option Regex := do
  let cs := s.toList
  let (r, rest) ← Pattern.alternatives [] (4 * cs.length + 8) |>.run { rest := cs }
  if rest.rest.isEmpty && r.depth ≤ depthLimit && r.value.cost ≤ costLimit then return r.value
  else none

end Regex

namespace Pattern

/-- The expressions that are read here. The words in which a text is refused are left out. -/
scoped instance : Libraries where
  compile text :=
    (Regex.parse? text).elim (.error "") fun r => .ok fun name => r.findsIn name.toList
  jsonRefusal _ := ""
  yamlRefusal _ := ""

end Pattern

end CheckpointedLog
