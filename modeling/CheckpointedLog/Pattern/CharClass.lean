import CheckpointedLog.Text.CaseFolding
import CheckpointedLog.Text.Category

namespace CheckpointedLog

inductive CharClass where
  /-- The characters whose numbers are in one of the ranges. -/
  | ranges (rs : Text.Ranges)
  | union (a b : CharClass)
  | inter (a b : CharClass)
  | compl (a : CharClass)
  /-- The characters that differ from one of `a` in case only. -/
  | anyCase (a : CharClass)
  /-- The characters that differ from one of `a` in the case of an ASCII letter only. -/
  | anyAsciiCase (a : CharClass)
deriving Repr

namespace CharClass

def single (n : Nat) : CharClass := ranges [(n, n)]

def empty : CharClass := ranges []

/-- The characters of `a` that are not in `b`. -/
def diff (a b : CharClass) : CharClass := inter a (compl b)

def symmDiff (a b : CharClass) : CharClass := union (diff a b) (diff b a)

/-- The number of the same ASCII letter in the other case. -/
def otherAsciiCase (n : Nat) : Nat :=
  if 0x41 ≤ n ∧ n ≤ 0x5A then n + 0x20 else if 0x61 ≤ n ∧ n ≤ 0x7A then n - 0x20 else n

def has : CharClass → Nat → Bool
  | ranges rs, n => rs.has n
  | union a b, n => a.has n || b.has n
  | inter a b, n => a.has n && b.has n
  | compl a, n => !a.has n
  | anyCase a, n => a.has n || (Text.caseMates n).any a.has
  | anyAsciiCase a, n => a.has n || a.has (otherAsciiCase n)

/-- Whether all numbers below 256 that the class has are ASCII. -/
def isAsciiOnly (a : CharClass) : Bool := (List.range 128).all fun n => !a.has (128 + n)

/-- The number of ranges that the class is made of, those beyond ASCII counted separately. -/
def rangeCounts : CharClass → Nat × Nat
  | ranges rs => (rs.countP (·.2 < 0x80), rs.countP (0x80 ≤ ·.2))
  | union a b | inter a b =>
    (a.rangeCounts.1 + b.rangeCounts.1, a.rangeCounts.2 + b.rangeCounts.2)
  | compl a => (a.rangeCounts.1, a.rangeCounts.2 + 4)
  | anyCase a => (2 * a.rangeCounts.1, 2 * a.rangeCounts.2)
  | anyAsciiCase a => (2 * a.rangeCounts.1, a.rangeCounts.2)

end CharClass

end CheckpointedLog
