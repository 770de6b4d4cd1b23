import CheckpointedLog.Text.Digits
import CheckpointedLog.Yaml.Cursor

namespace CheckpointedLog.Yaml

inductive ScalarStyle where
  | plain
  | quoted
  | literal
  | folded
deriving DecidableEq, Repr

namespace Scalar

/-- Line ends between two parts of a text: one alone becomes a blank, of several the first is left
out; the first one of a kind that is kept stays with the others. -/
def fold (first : List Char) (others : List Char) : List Char :=
  if first == ['\n'] then (if others.isEmpty then [' '] else others) else first ++ others

/-- What stands between two parts of a flow scalar. -/
structure Gap where
  /-- The blanks on the line, as long as no line has ended. -/
  blanks : List Char := []
  /-- The first line end, once there is one. -/
  first : List Char := []
  /-- The line ends after the first. -/
  others : List Char := []
  /-- Whether a line has ended. -/
  broken : Bool := false

def Gap.text (g : Gap) : List Char := if g.broken then fold g.first g.others else g.blanks

/-- Reads blanks and line ends. A tab may not stand where the indentation of `indent` columns is
expected. -/
def gap (indent : Int) (g : Gap) : (fuel : Nat) → Cursor → Option (Gap × Cursor)
  | 0, _ => none
  | fuel + 1, c =>
    if c.atBlank then
      if g.broken && c.column < indent && c.at? '\t' then none
      else if g.broken then gap indent g fuel c.skip
      else gap indent { g with blanks := g.blanks ++ c.peek?.toList } fuel c.skip
    else if c.atBreak then
      let (ends, c) := c.breakLine
      if g.broken then gap indent { g with others := g.others ++ ends } fuel c
      else gap indent { g with blanks := [], first := ends, broken := true } fuel c
    else some (g, c)

/-- The characters that only stand between the items of flow collections. -/
def flowMarks : List Char := [',', '[', ']', '\x7b', '\x7d']

/-- Reads the characters of a plain scalar up to a gap or its end. -/
def plainRun (flow : Bool) (found : List Char) :
    (fuel : Nat) → Cursor → Option (List Char × Cursor)
  | 0, _ => none
  | fuel + 1, c =>
    match c.peek? with
    | none => some (found, c)
    | some x =>
      if c.atGap then some (found, c)
      else if flow && x == ':' && c.oneOf ('?' :: flowMarks) 1 then none
      else if x == ':' && c.atGap 1 then some (found, c)
      else if flow && flowMarks.contains x then some (found, c)
      else plainRun flow (x :: found) fuel c.skip

/-- Reads the parts of a plain scalar. `found` is the text so far, in reverse, and `pending` the gap
after it. Also tells whether the scalar was left after a line end. -/
def plainParts (flow : Bool) (indent : Int) (found : List Char) (pending : Gap) :
    (fuel : Nat) → Cursor → Option (List Char × Bool × Cursor)
  | 0, _ => none
  | fuel + 1, c =>
    if c.atDocumentMark || c.at? '#' then some (found, pending.broken, c)
    else do
      let (run, after) ← plainRun flow [] (c.rest.length + 1) c
      let (found, pending) :=
        if run.isEmpty then (found, pending) else (run ++ pending.text.reverse ++ found, {})
      if after.atBlank || after.atBreak then
        let (pending, after) ← gap indent pending (after.rest.length + 1) after
        if !flow && after.column < indent then return (found, pending.broken, after)
        plainParts flow indent found pending fuel after
      else return (found, pending.broken, after)

/-- Reads a plain scalar within a block of the given indentation. Also tells whether a line ended
after it. -/
def plain (flow : Bool) (indent : Int) (c : Cursor) : Option (String × Bool × Cursor) :=
  (plainParts flow (indent + 1) [] {} (c.rest.length + 1) c).map fun (found, broken, after) =>
    (String.ofList found.reverse, broken, after)

/-- The character that a one-letter escape stands for. -/
def escaped? : Char → Option Char
  | '0' => some '\x00'
  | 'a' => some '\x07'
  | 'b' => some '\x08'
  | 't' | '\t' => some '\t'
  | 'n' => some '\n'
  | 'v' => some '\x0b'
  | 'f' => some '\x0c'
  | 'r' => some '\r'
  | 'e' => some '\x1b'
  | ' ' => some ' '
  | '"' => some '"'
  | '/' => some '/'
  | '\\' => some '\\'
  | 'N' => some '\u0085'
  | '_' => some '\u00a0'
  | 'L' => some '\u2028'
  | 'P' => some '\u2029'
  | _ => none

/-- The number of hexadecimal digits after an escape. -/
def escapeDigits? : Char → Option Nat
  | 'x' => some 2
  | 'u' => some 4
  | 'U' => some 8
  | _ => none

/-- The character whose number hexadecimal digits spell. -/
def charOfHex? (digits : List Char) : Option Char :=
  (numeral? 16 digits).bind fun n =>
    if h : n.isValidChar then some (Char.ofNatAux n h) else none

def escape (c : Cursor) : Option (Char × Cursor) := do
  let letter ← c.peek?
  match escapeDigits? letter with
  | some count =>
    let digits := (c.rest.drop 1).take count
    if digits.length < count then none
    else (charOfHex? digits).map fun x => (x, c.skip (count + 1))
  | none => (escaped? letter).map fun x => (x, c.skip)

/-- Reads the characters of a quoted scalar up to a gap or its closing quote. Also tells whether
an escaped line end was read last. -/
def quotedRun (single : Bool) (found : List Char) :
    (fuel : Nat) → Cursor → Option (List Char × Bool × Cursor)
  | 0, _ => none
  | fuel + 1, c =>
    match c.peek? with
    | none => some (found, false, c)
    | some x =>
      if c.atGap then some (found, false, c)
      else if single && x == '\'' && c.at? '\'' 1 then quotedRun single ('\'' :: found) fuel (c.skip 2)
      else if x == (if single then '\'' else '"') then some (found, false, c)
      else if !single && x == '\\' && c.atBreak 1 then some (found, true, c.skip.nextLine)
      else if !single && x == '\\' then
        (escape c.skip).bind fun (y, c) => quotedRun single (y :: found) fuel c
      else quotedRun single (x :: found) fuel c.skip

/-- Reads the parts of a quoted scalar after its opening quote; `found` is in reverse. -/
def quotedParts (single : Bool) (found : List Char) :
    (fuel : Nat) → Cursor → Option (List Char × Cursor)
  | 0, _ => none
  | fuel + 1, c =>
    if c.atDocumentMark || c.atEnd then none
    else do
      let (found, joined, c) ← quotedRun single found (c.rest.length + 1) c
      if !joined && c.at? (if single then '\'' else '"') then return (found, c.skip)
      let (between, c) ← gap 0 { broken := joined } (c.rest.length + 1) c
      quotedParts single (between.text.reverse ++ found) fuel c

def quoted (single : Bool) (c : Cursor) : Option (String × Cursor) :=
  (quotedParts single [] (c.rest.length + 1) c.skip).map fun (found, c) =>
    (String.ofList found.reverse, c)

/-- What happens to the line ends after a block scalar. -/
inductive Chomping where
  | strip
  | clip
  | keep

/-- Reads the sign and the digit after the mark of a block scalar, in either order. -/
def blockHeader (c : Cursor) : Option (Chomping × Option Nat × Cursor) :=
  let sign? (c : Cursor) : Option Chomping :=
    if c.at? '+' then some .keep else if c.at? '-' then some .strip else none
  let digit? (c : Cursor) : Option Nat := c.peek?.bind Decimal.digit?
  match sign? c with
  | some chomping =>
    match digit? c.skip with
    | some 0 => none
    | some n => some (chomping, some n, c.skip 2)
    | none => some (chomping, none, c.skip)
  | none =>
    match digit? c with
    | some 0 => none
    | some n =>
      match sign? c.skip with
      | some chomping => some (chomping, some n, c.skip 2)
      | none => some (.clip, some n, c.skip)
    | none => some (.clip, none, c)

/-- Goes to the next line after blanks and a comment. -/
def restOfHeader (c : Cursor) : Option Cursor :=
  let c := c.skipWhile isBlank
  let c := if c.at? '#' then c.skipWhile (!isBreak ·) else c
  if c.atLineEnd then some c.nextLine else none

/-- Reads the indentation and the empty lines before a line of a block scalar. `indent` is the
indentation of the block if it is known, `widest` the widest one seen. Gives the line ends, in
order. -/
def blockBreaks (indent : Option Nat) (widest : Nat) (ends : List Char) :
    (fuel : Nat) → Cursor → Option (List Char × Nat × Cursor)
  | 0, _ => none
  | fuel + 1, c =>
    let inside (column : Nat) : Bool := indent.all (column < ·)
    let width := (c.rest.takeWhile (· == ' ')).length
    let width := match indent with
      | none => width
      | some n => min width (n - c.column)
    let c := c.skip width
    let widest := max widest c.column
    if inside c.column && c.at? '\t' then none
    else if c.atBreak then
      let (more, c) := c.breakLine
      blockBreaks indent widest (ends ++ more) fuel c
    else some (ends, widest, c)

/-- Reads the lines of a block scalar. `found` is the text so far, in reverse; `first` is the end of
the last line and `others` are the ends of empty lines after it; `blank` tells whether the last line
began with a blank. -/
def blockLines (isLiteral : Bool) (indent : Nat) (found : List Char) (first others : List Char)
    (blank : Bool) : (fuel : Nat) → Cursor → Option (List Char × List Char × List Char × Cursor)
  | 0, _ => none
  | fuel + 1, c =>
    if c.column == indent && !c.atEnd then
      let nowBlank := c.atBlank
      let joint :=
        if !isLiteral && first == ['\n'] && !blank && !nowBlank then
          (if others.isEmpty then [' '] else others)
        else first ++ others
      let (line, c) := c.takeWhile (!isBreak ·)
      let (first, c) := c.breakLine
      (blockBreaks (some indent) 0 [] (c.rest.length + 1) c).bind fun (others, _, c) =>
        blockLines isLiteral indent (line.reverse ++ joint.reverse ++ found) first others nowBlank
          fuel c
    else some (found, first, others, c)

/-- Reads a block scalar within a block of the given indentation. -/
def block (isLiteral : Bool) (indent : Int) (c : Cursor) : Option (String × Cursor) := do
  let (chomping, increment, c) ← blockHeader c.skip
  let c ← restOfHeader c
  let given := increment.map fun n => if 0 ≤ indent then indent.toNat + n else n
  let (others, widest, c) ← blockBreaks given 0 [] (c.rest.length + 1) c
  let own := given.getD (max widest (max (indent + 1).toNat 1))
  let (found, first, others, c) ←
    blockLines isLiteral own [] [] others false (c.rest.length + 1) c
  let tail := match chomping with
    | .strip => []
    | .clip => first
    | .keep => first ++ others
  return (String.ofList (found.reverse ++ tail), c)

end Scalar

end CheckpointedLog.Yaml
