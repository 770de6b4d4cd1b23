import CheckpointedLog.Pattern.CharClass

/-!
Regular expressions over texts. `Regex.Spans` says between which places of a text an expression
matches; `Regex.ends` lists, for one place, all places where a match that begins there may end.
-/
namespace CheckpointedLog

/-- A condition on a place between two characters. -/
inductive Assertion where
  | textStart
  | textEnd
  /-- The start of a line; `crlf` tells whether a carriage return ends lines too. -/
  | lineStart (crlf : Bool)
  | lineEnd (crlf : Bool)
  /-- Exactly one side is a character of words; `ascii` tells whether only ASCII counts. -/
  | wordBoundary (ascii : Bool)
  | noWordBoundary (ascii : Bool)
  | wordStart (ascii : Bool)
  | wordEnd (ascii : Bool)
  /-- No character of words before the place. -/
  | wordStartHalf (ascii : Bool)
  /-- No character of words after the place. -/
  | wordEndHalf (ascii : Bool)
deriving DecidableEq, Repr

inductive Regex where
  | empty
  /-- One character of a class. -/
  | char (c : CharClass)
  /-- Nothing, at a place of a kind. -/
  | assertion (a : Assertion)
  | concat (r s : Regex)
  | alt (r s : Regex)
  /-- At least `least` matches of `r` in a row, and at most `most` if that is given. -/
  | repeated (r : Regex) (least : Nat) (most : Option Nat)
deriving Repr

def asciiWordChars : Text.Ranges := [(0x30, 0x39), (0x41, 0x5A), (0x5F, 0x5F), (0x61, 0x7A)]

namespace Assertion

def before? (text : List Char) (i : Nat) : Option Char :=
  match i with
  | 0 => none
  | i + 1 => text[i]?

/-- Whether there is a character and it is one of words. -/
def isWord (ascii : Bool) (c : Option Char) : Bool :=
  c.any fun c => if ascii then asciiWordChars.has c.toNat else Text.wordChars.has c.toNat

/-- Whether the assertion holds at a place of a text. -/
def holds (text : List Char) (i : Nat) : Assertion → Bool
  | textStart => i == 0
  | textEnd => i == text.length
  | lineStart crlf =>
    i == 0 || before? text i == some '\n'
      || (crlf && before? text i == some '\r' && text[i]? != some '\n')
  | lineEnd crlf =>
    i == text.length
      || (text[i]? == some '\n' && !(crlf && before? text i == some '\r'))
      || (crlf && text[i]? == some '\r')
  | wordBoundary ascii => isWord ascii (before? text i) != isWord ascii text[i]?
  | noWordBoundary ascii => isWord ascii (before? text i) == isWord ascii text[i]?
  | wordStart ascii => !isWord ascii (before? text i) && isWord ascii text[i]?
  | wordEnd ascii => isWord ascii (before? text i) && !isWord ascii text[i]?
  | wordStartHalf ascii => !isWord ascii (before? text i)
  | wordEndHalf ascii => !isWord ascii text[i]?

end Assertion

namespace Regex

/-- `Chain R n i j`: `n` steps of `R` lead from `i` to `j`. -/
inductive Chain (R : Nat → Nat → Prop) : Nat → Nat → Nat → Prop where
  | nil (i : Nat) : Chain R 0 i i
  | cons {n i j k : Nat} : R i j → Chain R n j k → Chain R (n + 1) i k

/-- `r.Spans text i j`: the expression matches the characters of `text` from place `i` to `j`. -/
def Spans (text : List Char) : Regex → Nat → Nat → Prop
  | empty, i, j => i = j
  | char c, i, j => ∃ x, text[i]? = some x ∧ c.has x.toNat = true ∧ j = i + 1
  | assertion a, i, j => i = j ∧ a.holds text i = true
  | concat r s, i, j => ∃ k, r.Spans text i k ∧ s.Spans text k j
  | alt r s, i, j => r.Spans text i j ∨ s.Spans text i j
  | repeated r least most, i, j =>
    ∃ n, least ≤ n ∧ (∀ m ∈ most, n ≤ m) ∧ Chain (r.Spans text) n i j

def merge (places more : List Nat) : List Nat :=
  more.foldl (fun found i => if found.contains i then found else i :: found) places

/-- The places that one step leads to from some place of the list. -/
def advance (step : Nat → List Nat) (places : List Nat) : List Nat :=
  places.foldl (fun found i => merge found (step i)) []

/-- The places that exactly `n` steps lead to. -/
def exactly (step : Nat → List Nat) : Nat → List Nat → List Nat
  | 0, places => places
  | n + 1, places => exactly step n (advance step places)

/-- The places that at most `n` steps lead to. -/
def upTo (step : Nat → List Nat) : Nat → List Nat → List Nat
  | 0, places => places
  | n + 1, places => merge places (upTo step n (advance step places))

/-- The places where a match that begins at `i` may end. More than `text.length + 1` repetitions
reach no place that fewer do not reach: some of them match the empty text. -/
def ends (text : List Char) : Regex → Nat → List Nat
  | empty, i => [i]
  | char c, i => if text[i]?.any fun x => c.has x.toNat then [i + 1] else []
  | assertion a, i => if a.holds text i then [i] else []
  | concat r s, i => advance (s.ends text) (r.ends text i)
  | alt r s, i => merge (r.ends text i) (s.ends text i)
  | repeated r least most, i =>
    let bound := text.length + 1
    let atLeast := exactly (r.ends text) (min least bound) [i]
    match most with
    | none => upTo (r.ends text) bound atLeast
    | some most =>
      if most < least then [] else upTo (r.ends text) (min (most - least) bound) atLeast

/-- Whether the expression matches some part of the text. -/
def findsIn (r : Regex) (text : List Char) : Bool :=
  (List.range (text.length + 1)).any fun i => !(r.ends text i).isEmpty

end Regex

end CheckpointedLog
