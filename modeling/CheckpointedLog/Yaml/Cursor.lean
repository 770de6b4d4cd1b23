namespace CheckpointedLog.Yaml

def isBlank (c : Char) : Bool := c == ' ' || c == '\t'

def isBreak (c : Char) : Bool :=
  c == '\r' || c == '\n' || c == '\u0085' || c == '\u2028' || c == '\u2029'

def isPrintable (c : Char) : Bool :=
  c == '\t' || c == '\n' || c == '\r' || (' ' ≤ c && c ≤ '~') || c == '\u0085'
    || ('\u00a0' ≤ c && c ≤ '\ufffd') || 0x10000 ≤ c.toNat

/-- A character of names: of anchors, and of the handles of tags. -/
def isWordChar (c : Char) : Bool :=
  ('0' ≤ c && c ≤ '9') || ('A' ≤ c && c ≤ 'Z') || ('a' ≤ c && c ≤ 'z') || c == '_' || c == '-'

/-- A place in a text. Lines, columns and the index count from 0. -/
structure Cursor where
  rest : List Char
  line : Nat := 0
  column : Nat := 0
  index : Nat := 0
deriving Inhabited

namespace Cursor

/-- The character `k` places ahead. -/
def peek? (c : Cursor) (k : Nat := 0) : Option Char := c.rest[k]?

/-- Whether `x` stands `k` places ahead. -/
def at? (c : Cursor) (x : Char) (k : Nat := 0) : Bool := c.peek? k == some x

/-- Whether one of `xs` stands `k` places ahead. -/
def oneOf (c : Cursor) (xs : List Char) (k : Nat := 0) : Bool := (c.peek? k).any xs.contains

/-- Whether the text is at its end `k` places ahead. -/
def atEnd (c : Cursor) (k : Nat := 0) : Bool := (c.peek? k).isNone

def atBlank (c : Cursor) (k : Nat := 0) : Bool := (c.peek? k).any isBlank

def atBreak (c : Cursor) (k : Nat := 0) : Bool := (c.peek? k).any isBreak

/-- Whether a line or the text ends `k` places ahead. -/
def atLineEnd (c : Cursor) (k : Nat := 0) : Bool := c.atEnd k || c.atBreak k

/-- Whether a blank stands, or a line or the text ends, `k` places ahead. -/
def atGap (c : Cursor) (k : Nat := 0) : Bool := c.atBlank k || c.atLineEnd k

/-- Goes `n` characters ahead on the line. -/
def skip (c : Cursor) (n : Nat := 1) : Cursor :=
  { c with rest := c.rest.drop n, column := c.column + n, index := c.index + n }

/-- Goes past the end of the line; also gives the characters that the line end stands for. -/
def breakLine (c : Cursor) : List Char × Cursor :=
  let next (n : Nat) : Cursor :=
    { rest := c.rest.drop n, line := c.line + 1, column := 0, index := c.index + n }
  match c.rest with
  | '\r' :: '\n' :: _ => (['\n'], next 2)
  | x :: _ =>
    if x == '\u2028' || x == '\u2029' then ([x], next 1)
    else if isBreak x then (['\n'], next 1)
    else ([], c)
  | [] => ([], c)

def nextLine (c : Cursor) : Cursor := c.breakLine.2

/-- Goes ahead over the characters that satisfy `p`; also gives them. -/
def takeWhile (p : Char → Bool) (c : Cursor) : List Char × Cursor :=
  let taken := c.rest.takeWhile p
  (taken, c.skip taken.length)

/-- Goes ahead over the characters that satisfy `p`. -/
def skipWhile (p : Char → Bool) (c : Cursor) : Cursor := (c.takeWhile p).2

/-- Whether `---` or `...` stands alone at the beginning of a line. -/
def atDocumentMark (c : Cursor) : Bool :=
  c.column == 0 && (c.rest.take 3 == ['-', '-', '-'] || c.rest.take 3 == ['.', '.', '.'])
    && c.atGap 3

end Cursor

end CheckpointedLog.Yaml
