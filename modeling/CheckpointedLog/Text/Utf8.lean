namespace CheckpointedLog

/-- A sequence of bytes: a payload, a snapshot, or the contents of a file. -/
abbrev Bytes := List UInt8

namespace Utf8

inductive Fault where
  /-- The `length` bytes at `start` begin no character, whatever follows. -/
  | illFormed (start length : Nat)
  /-- The bytes end within the character that begins at `start`. -/
  | incomplete (start : Nat)
deriving DecidableEq, Repr

def Fault.message : Fault → String
  | illFormed start length =>
    "invalid utf-8 sequence of " ++ toString length ++ " bytes from index " ++ toString start
  | incomplete start => "incomplete utf-8 byte sequence from index " ++ toString start

def encode (s : String) : Bytes := s.toList.flatMap String.utf8EncodeChar

/-- A character whose first bytes were read: the value so far, the range of the next byte, the
number of bytes after that one, and the number of bytes read. -/
structure Partial where
  value : Nat
  low : Nat
  high : Nat
  more : Nat
  used : Nat
deriving Repr

/-- The character that a byte of at least `0x80` begins; none begins with the bytes left out. After
`E0`, `ED`, `F0` and `F4` the next byte is restricted, so that each character has one form, no
surrogate has any, and no number exceeds the greatest character. -/
def begin? (b : Nat) : Option Partial :=
  if 0xC2 ≤ b ∧ b ≤ 0xDF then some ⟨b - 0xC0, 0x80, 0xBF, 0, 1⟩
  else if b = 0xE0 then some ⟨0, 0xA0, 0xBF, 1, 1⟩
  else if b = 0xED then some ⟨0xD, 0x80, 0x9F, 1, 1⟩
  else if 0xE1 ≤ b ∧ b ≤ 0xEF then some ⟨b - 0xE0, 0x80, 0xBF, 1, 1⟩
  else if b = 0xF0 then some ⟨0, 0x90, 0xBF, 2, 1⟩
  else if 0xF1 ≤ b ∧ b ≤ 0xF3 then some ⟨b - 0xF0, 0x80, 0xBF, 2, 1⟩
  else if b = 0xF4 then some ⟨4, 0x80, 0x8F, 2, 1⟩
  else none

/-- Reads on after `start` bytes of complete characters, within the given one if there is one. -/
def decodeFrom (start : Nat) : Option Partial → Bytes → Except Fault (List Char)
  | none, [] => .ok []
  | some _, [] => .error (.incomplete start)
  | none, b :: bytes =>
    if b < 0x80 then (decodeFrom (start + 1) none bytes).map (Char.ofNat b.toNat :: ·)
    else match begin? b.toNat with
      | none => .error (.illFormed start 1)
      | some p => decodeFrom start (some p) bytes
  | some p, b :: bytes =>
    if p.low ≤ b.toNat ∧ b.toNat ≤ p.high then
      let value := p.value * 64 + (b.toNat - 0x80)
      match p.more with
      | 0 => (decodeFrom (start + p.used + 1) none bytes).map (Char.ofNat value :: ·)
      | more + 1 => decodeFrom start (some ⟨value, 0x80, 0xBF, more, p.used + 1⟩) bytes
    else .error (.illFormed start p.used)

def decode (bytes : Bytes) : Except Fault String :=
  (decodeFrom 0 none bytes).map String.ofList

end Utf8

end CheckpointedLog
