import CheckpointedLog.Yaml.Scalar

/-!
YAML texts as tokens. Indentation becomes tokens too: each block collection is opened by a start
token and closed by `blockEnd`. A key is recognised only at its colon; the `key` token is then
put in front of the tokens of the key, which `Lexer.keys` remembers.
-/
namespace CheckpointedLog.Yaml

inductive Token where
  | version (major minor : Nat)
  | tagHandle (handle expansion : String)
  | documentStart
  | documentEnd
  | blockSequenceStart
  | blockMappingStart
  | blockEnd
  | flowSequenceStart
  | flowSequenceEnd
  | flowMappingStart
  | flowMappingEnd
  | blockEntry
  | flowEntry
  | key
  | value
  | alias (name : String)
  | anchor (name : String)
  | tag (handle suffix : String)
  | scalar (style : ScalarStyle) (text : String)
deriving DecidableEq, Repr

/-- A place where a key without mark may have begun. -/
structure KeyCandidate where
  /-- Whether only a key can stand there. -/
  required : Bool
  /-- The number of tokens before it. -/
  token : Nat
  line : Nat
  column : Nat
  index : Nat

structure Lexer where
  cursor : Cursor
  tokens : Array Token := #[]
  /-- The column of the innermost block collection; `-1` outside of all. -/
  indent : Int := -1
  /-- The columns of the block collections around it, innermost first. -/
  outer : List Int := []
  /-- Whether a key without mark may begin here. -/
  keyAllowed : Bool := true
  /-- The possible key at each level of flow collections, innermost first; the last one is outside
  of all. -/
  keys : List (Option KeyCandidate) := [none]

namespace Lexer

def inFlow (l : Lexer) : Bool := l.keys.length > 1

def push (l : Lexer) (t : Token) : Lexer := { l with tokens := l.tokens.push t }

/-- Puts a token in front of token number `n`. -/
def insertAt (l : Lexer) (n : Nat) (t : Token) : Lexer :=
  { l with tokens := (l.tokens.toList.take n ++ t :: l.tokens.toList.drop n).toArray }

def skip (l : Lexer) (n : Nat := 1) : Lexer := { l with cursor := l.cursor.skip n }

/-- Goes over blanks, comments and line ends. In a block, tabs count as blanks only where no key
may begin, and after a line end a key may begin. -/
def skipGap (l : Lexer) : (fuel : Nat) → Lexer
  | 0 => l
  | fuel + 1 =>
    let c := l.cursor
    if c.at? ' ' || ((l.inFlow || !l.keyAllowed) && c.at? '\t') then l.skip.skipGap fuel
    else if c.at? '#' then { l with cursor := c.skipWhile (!isBreak ·) }.skipGap fuel
    else if c.atBreak then
      { l with cursor := c.nextLine, keyAllowed := l.keyAllowed || !l.inFlow }.skipGap fuel
    else l

/-- Forgets the innermost possible key, unless only a key could stand there. -/
def dropKey (l : Lexer) : Option Lexer :=
  match l.keys with
  | some k :: keys => if k.required then none else some { l with keys := none :: keys }
  | _ => some l

def saveKey (l : Lexer) : Option Lexer :=
  if l.keyAllowed then
    l.dropKey.map fun l =>
      let c := l.cursor
      let k : KeyCandidate :=
        { required := !l.inFlow && l.indent == c.column, token := l.tokens.size,
          line := c.line, column := c.column, index := c.index }
      { l with keys := some k :: l.keys.tail }
  else some l

/-- Forgets the possible keys that are too far away: on an earlier line, or more than 1024
characters back. -/
def dropOldKeys (l : Lexer) : Option Lexer :=
  let old (k : KeyCandidate) : Bool :=
    k.line < l.cursor.line || k.index + 1024 < l.cursor.index
  if l.keys.any fun k => k.any fun k => old k && k.required then none
  else some { l with keys := l.keys.map fun k => k.filter (!old ·) }

/-- Opens a block collection at a column to the right of the innermost one, by putting its start
token in front of token number `n`. -/
def openBlock (l : Lexer) (column n : Nat) (start : Token) : Lexer :=
  if !l.inFlow && l.indent < column then
    { l.insertAt n start with indent := column, outer := l.indent :: l.outer }
  else l

/-- Closes the block collections to the right of `column`. -/
def closeBlocks (column : Int) (l : Lexer) : Lexer :=
  if l.inFlow then l
  else
    let closed := (l.indent :: l.outer).takeWhile (column < ·)
    match (l.indent :: l.outer).drop closed.length with
    | indent :: outer =>
      { l with
        tokens := l.tokens ++ (closed.map fun _ => Token.blockEnd).toArray
        indent := indent
        outer := outer }
    | [] => l

/-- A mark of the document: nothing is left open before it. -/
def documentMark (l : Lexer) (t : Token) : Option Lexer :=
  (l.closeBlocks (-1)).dropKey.map fun l => { l with keyAllowed := false }.push t |>.skip 3

def openFlow (l : Lexer) (t : Token) : Option Lexer :=
  l.saveKey.map fun l => { l with keys := none :: l.keys, keyAllowed := true }.push t |>.skip

def closeFlow (l : Lexer) (t : Token) : Option Lexer :=
  l.dropKey.map fun l =>
    { l with keys := if l.inFlow then l.keys.tail else l.keys, keyAllowed := false }.push t |>.skip

def flowComma (l : Lexer) : Option Lexer :=
  l.dropKey.map fun l => { l with keyAllowed := true }.push .flowEntry |>.skip

/-- The mark of an item or of a key that opens a block collection at its column. -/
def blockMark (l : Lexer) (start t : Token) (keyAfter : Bool) : Option Lexer :=
  if !l.inFlow && !l.keyAllowed then none
  else
    let l := l.openBlock l.cursor.column l.tokens.size start
    l.dropKey.map fun l => { l with keyAllowed := keyAfter }.push t |>.skip

/-- The colon before a value: it completes a key that was possible. -/
def valueMark (l : Lexer) : Option Lexer :=
  match l.keys with
  | some k :: keys =>
    let l := (l.insertAt k.token .key).openBlock k.column k.token .blockMappingStart
    some ({ l with keys := none :: keys, keyAllowed := false }.push .value |>.skip)
  | _ =>
    if !l.inFlow && !l.keyAllowed then none
    else
      let l := l.openBlock l.cursor.column l.tokens.size .blockMappingStart
      some ({ l with keyAllowed := !l.inFlow }.push .value |>.skip)

/-- A token at which a key may begin, but not directly after it. -/
def atom (l : Lexer) (read : Cursor → Option (Token × Cursor)) : Option Lexer := do
  let l ← l.saveKey
  let (t, c) ← read l.cursor
  return { l with keyAllowed := false, cursor := c }.push t

def name (c : Cursor) : Option (String × Cursor) :=
  let (cs, c) := c.skip.takeWhile isWordChar
  if !cs.isEmpty && (c.atGap || c.oneOf ['?', ':', ',', ']', '\x7d', '%', '@', '\x60']) then
    some (String.ofList cs, c)
  else none

def isTagChar (verbatim : Bool) (c : Char) : Bool :=
  isWordChar c || (";/?:@&=+$.!~*'()".toList.contains c) || (verbatim && [',', '[', ']'].contains c)

/-- Reads the characters of a tag; a percent sign and two hexadecimal digits give a byte. -/
def tagBytes (verbatim : Bool) : (fuel : Nat) → Cursor → Option (List UInt8 × Cursor)
  | 0, _ => none
  | fuel + 1, c =>
    match c.rest with
    | '%' :: a :: b :: _ => do
      let n ← numeral? 16 [a, b]
      let (bytes, c) ← tagBytes verbatim fuel (c.skip 3)
      return (UInt8.ofNat n :: bytes, c)
    | x :: _ =>
      if isTagChar verbatim x then
        (tagBytes verbatim fuel c.skip).map fun (bytes, c) =>
          (String.utf8EncodeChar x ++ bytes, c)
      else some ([], c)
    | [] => some ([], c)

def tagText (verbatim : Bool) (c : Cursor) : Option (String × Cursor) := do
  let (bytes, c) ← tagBytes verbatim (c.rest.length + 1) c
  let s ← String.fromUTF8? bytes.toByteArray
  return (s, c)

/-- Reads a handle: an exclamation mark, or a word between two. -/
def handle (c : Cursor) : List Char × Cursor :=
  let (word, after) := c.skip.takeWhile isWordChar
  if after.at? '!' then ('!' :: word ++ ['!'], after.skip) else ('!' :: word, after)

def tag (flow : Bool) (c : Cursor) : Option (Token × Cursor) := do
  let (t, c) ←
    if c.at? '<' 1 then do
      let (suffix, c) ← tagText true (c.skip 2)
      if c.at? '>' && !suffix.isEmpty then some (Token.tag "" suffix, c.skip) else none
    else
      let (found, after) := handle c
      if found.length > 1 && found.getLast? == some '!' then
        (tagText false after).bind fun (suffix, c) =>
          if suffix.isEmpty then none else some (Token.tag (String.ofList found) suffix, c)
      else
        (tagText false after).map fun (suffix, c) =>
          let suffix := String.ofList found.tail ++ suffix
          (if suffix.isEmpty then Token.tag "" "!" else Token.tag "!" suffix, c)
  if (flow && c.at? ',') || c.atGap then some (t, c) else none

def endOfDirective (c : Cursor) : Option Cursor := Scalar.restOfHeader c

def directive (c : Cursor) : Option (Token × Cursor) := do
  let (word, c) := c.skip.takeWhile isWordChar
  if !c.atGap then none
  else
    let c := c.skipWhile isBlank
    match String.ofList word with
    | "YAML" =>
      let (major, c) := c.takeWhile Char.isDigit
      if !c.at? '.' then none
      else
        let (minor, c) := c.skip.takeWhile Char.isDigit
        let t := Token.version (← Decimal.nat? major) (← Decimal.nat? minor)
        (endOfDirective c).map (t, ·)
    | "TAG" =>
      if !c.at? '!' then none
      else
        let (found, c) := handle c
        if (found.length > 1 && found.getLast? != some '!') || !c.atBlank then none
        else
          let (expansion, c) ← tagText true (c.skipWhile isBlank)
          if !c.atGap then none
          else (endOfDirective c).map (Token.tagHandle (String.ofList found) expansion, ·)
    | _ => none

/-- A plain scalar begins with any character but a mark; `-`, `?` and `:` begin one if they are
followed by one. -/
def beginsPlain (l : Lexer) : Bool :=
  let c := l.cursor
  !(c.atGap || c.oneOf "-?:,[]\x7b\x7d#&*!|>'\"%@\x60".toList) || (c.at? '-' && !c.atBlank 1)
    || (!l.inFlow && c.oneOf ['?', ':'] && !c.atGap 1)

/-- Reads one token; at the end of the text gives none. -/
def next (l : Lexer) : Option (Option Lexer) := do
  let l := l.skipGap (2 * l.cursor.rest.length + 1)
  let l ← l.dropOldKeys
  let l := l.closeBlocks l.cursor.column
  let c := l.cursor
  match c.peek? with
  | none => return none
  | some x =>
    some <$>
      if c.column == 0 && x == '%' then
        (l.closeBlocks (-1)).dropKey.bind fun l =>
          (directive c).map fun (t, c) => { l with keyAllowed := false, cursor := c }.push t
      else if c.atDocumentMark then
        l.documentMark (if x == '-' then .documentStart else .documentEnd)
      else if x == '[' then l.openFlow .flowSequenceStart
      else if x == '\x7b' then l.openFlow .flowMappingStart
      else if x == ']' then l.closeFlow .flowSequenceEnd
      else if x == '\x7d' then l.closeFlow .flowMappingEnd
      else if x == ',' then l.flowComma
      else if x == '-' && c.atGap 1 then
        l.blockMark .blockSequenceStart .blockEntry true
      else if x == '?' && (l.inFlow || c.atGap 1) then
        l.blockMark .blockMappingStart .key (!l.inFlow)
      else if x == ':' && (l.inFlow || c.atGap 1) then l.valueMark
      else if x == '*' then l.atom fun c => (name c).map fun (s, c) => (.alias s, c)
      else if x == '&' then l.atom fun c => (name c).map fun (s, c) => (.anchor s, c)
      else if x == '!' then l.atom (tag l.inFlow)
      else if (x == '|' || x == '>') && !l.inFlow then do
        let l ← l.dropKey
        let isLiteral := x == '|'
        let (s, c) ← Scalar.block isLiteral l.indent c
        return { l with keyAllowed := true, cursor := c }.push
          (.scalar (if isLiteral then .literal else .folded) s)
      else if x == '\'' || x == '"' then
        l.atom fun c => (Scalar.quoted (x == '\'') c).map fun (s, c) => (.scalar .quoted s, c)
      else if l.beginsPlain then do
        let l ← l.saveKey
        let (s, broken, c) ← Scalar.plain l.inFlow l.indent c
        return { l with keyAllowed := broken, cursor := c }.push (.scalar .plain s)
      else none

def run (l : Lexer) : (fuel : Nat) → Option (List Token)
  | 0 => none
  | fuel + 1 => do
    match ← l.next with
    | some l => l.run fuel
    | none =>
      let l := l.skipGap (2 * l.cursor.rest.length + 1)
      let l ← (l.closeBlocks (-1)).dropOldKeys
      let l ← l.dropKey
      return l.tokens.toList

end Lexer

/-- The tokens of a text. A byte order mark at its beginning is left out. -/
def Token.ofText? (s : String) : Option (List Token) :=
  let cs := match s.toList with
    | '\ufeff' :: cs => cs
    | cs => cs
  if cs.all isPrintable then
    ({ cursor := { rest := cs } } : Lexer).run (cs.length + 2)
  else none

end CheckpointedLog.Yaml
