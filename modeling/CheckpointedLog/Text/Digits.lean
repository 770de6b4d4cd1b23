namespace CheckpointedLog

/-- The value of a digit; letters of either case count from 10. -/
def digitValue? (c : Char) : Option Nat :=
  if '0' ≤ c ∧ c ≤ '9' then some (c.toNat - '0'.toNat)
  else if 'a' ≤ c ∧ c ≤ 'z' then some (c.toNat - 'a'.toNat + 10)
  else if 'A' ≤ c ∧ c ≤ 'Z' then some (c.toNat - 'A'.toNat + 10)
  else none

def digitOf? (base : Nat) (c : Char) : Option Nat := (digitValue? c).filter (· < base)

/-- The number that one or more digits of a base spell. -/
def numeral? (base : Nat) (cs : List Char) : Option Nat :=
  if cs.isEmpty then none else cs.foldlM (fun n c => (digitOf? base c).map (base * n + ·)) 0

namespace Decimal

def digit? (c : Char) : Option Nat :=
  if '0' ≤ c ∧ c ≤ '9' then some (c.toNat - '0'.toNat) else none

/-- Continues reading digits after a number of value `n`. -/
def digitsFrom (n : Nat) : List Char → Option Nat
  | [] => some n
  | c :: cs => (digit? c).bind fun d => digitsFrom (10 * n + d) cs

def nat? : List Char → Option Nat
  | [] => none
  | c :: cs => digitsFrom 0 (c :: cs)

/-- Digits after an optional `+` or `-`. -/
def int? : List Char → Option Int
  | '+' :: cs => (nat? cs).map Int.ofNat
  | '-' :: cs => (nat? cs).map fun n => -(Int.ofNat n)
  | cs => (nat? cs).map Int.ofNat

def int32? (cs : List Char) : Option Int32 :=
  (int? cs).bind fun n =>
    if Int32.minValue.toInt ≤ n ∧ n ≤ Int32.maxValue.toInt then some (Int32.ofInt n) else none

/-- An unsigned number of 64 bits; a `+` may stand in front, a `-` may not. -/
def uint64? (cs : List Char) : Option UInt64 :=
  let digits := match cs with
    | '+' :: rest => rest
    | _ => cs
  (nat? digits).bind fun n => if n < UInt64.size then some (UInt64.ofNat n) else none

/-- The bound from which on a magnitude is rounded beyond the greatest double. -/
def doubleLimit : Nat := 1 <<< 1024 - 1 <<< 970

/-- Whether `coefficient * 10 ^ exponent` reaches `doubleLimit`. -/
def exceedsDoubles (coefficient : Nat) (exponent : Int) : Bool :=
  let magnitude := (Nat.toDigits 10 coefficient).length + exponent
  if coefficient = 0 then false
  else if 310 < magnitude then true
  else if magnitude < 300 then false
  else if 0 ≤ exponent then doubleLimit ≤ coefficient * Nat.pow 10 exponent.toNat
  else doubleLimit * Nat.pow 10 (-exponent).toNat ≤ coefficient

end Decimal

end CheckpointedLog
