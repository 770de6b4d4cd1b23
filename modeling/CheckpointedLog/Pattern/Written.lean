import CheckpointedLog.Libraries
import CheckpointedLog.Pattern.Regex

/-!
How expressions are written, given how their smallest parts are, and what a library that reads them has to
do.
-/
namespace CheckpointedLog

namespace Regex

inductive Level where
  | atom
  /-- An atom, repeated or not, or one of the ends of the text. -/
  | item
  | sequence
  | alternatives

/-- What groups begin with, whether they are counted or not. -/
def openings : List (List Char) := [['('], ['(', '?', ':']]

/-- The marks of repetitions, with the least and the greatest number. -/
def marks : List (Char × Nat × Option Nat) := [('*', 0, none), ('+', 1, none), ('?', 0, some 1)]

/-- `Written atoms level cs r`: the expression is written as `cs`. The atoms need not be single characters:
a class or a group with flags of its own may be one. -/
inductive Written (atoms : List Char → Regex → Prop) : Level → List Char → Regex → Prop where
  | atom {cs : List Char} {r : Regex} : atoms cs r → Written atoms .atom cs r
  | group {opening cs : List Char} {r : Regex} : opening ∈ openings → Written atoms .alternatives cs r →
      Written atoms .atom (opening ++ cs ++ [')']) r
  | single {cs : List Char} {r : Regex} : Written atoms .atom cs r → Written atoms .item cs r
  | repeated {cs : List Char} {r : Regex} {mark : Char} {least : Nat} {most : Option Nat} :
      Written atoms .atom cs r → (mark, least, most) ∈ marks →
      Written atoms .item (cs ++ [mark]) (.repeated r least most)
  | textStart : Written atoms .item ['^'] (.assertion .textStart)
  | textEnd : Written atoms .item ['$'] (.assertion .textEnd)
  | nil : Written atoms .sequence [] .empty
  | cons {cs ds : List Char} {r s : Regex} : Written atoms .item cs r → Written atoms .sequence ds s →
      Written atoms .sequence (cs ++ ds) (.concat r s)
  | sole {cs : List Char} {r : Regex} : Written atoms .sequence cs r → Written atoms .alternatives cs r
  | or {cs ds : List Char} {r s : Regex} : Written atoms .sequence cs r →
      Written atoms .alternatives ds s → Written atoms .alternatives (cs ++ '|' :: ds) (.alt r s)

def OccursIn (r : Regex) (text : List Char) : Prop := ∃ i ≤ text.length, ∃ j, r.Spans text i j

end Regex

open Regex in
/-- What is documented about expressions that are made of these atoms: those of up to `room` characters are
accepted, an expression is found where it occurs, and a parenthesis that closes no group is refused. -/
structure Libraries.ReadsExpressions [Libraries] (atoms : List Char → Regex → Prop) (room : Nat) : Prop where
  accepts {text : String} {r : Regex} : Written atoms .alternatives text.toList r → text.length ≤ room →
    ∃ found, compile text = .ok found
  finds {text : String} {r : Regex} {found : String → Bool} : Written atoms .alternatives text.toList r →
    compile text = .ok found → ∀ name, found name = true ↔ r.OccursIn name.toList
  refuses {front : String} {r : Regex} : Written atoms .alternatives front.toList r →
    ∀ back found, compile (front ++ ")" ++ back) ≠ .ok found

end CheckpointedLog
