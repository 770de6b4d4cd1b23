import CheckpointedLog.Text.Utf8

namespace CheckpointedLog.Wire

/-- The byte of `n` that has `256 ^ k` as its unit. -/
def byteAt (n k : Nat) : UInt8 := UInt8.ofNat (n >>> (8 * k))

def writeWord32 (n : UInt32) : Bytes :=
  [byteAt n.toNat 3, byteAt n.toNat 2, byteAt n.toNat 1, byteAt n.toNat 0]

/-- Four bytes; negative numbers as two's complement. -/
def writeInt32 (n : Int32) : Bytes := writeWord32 n.toUInt32

def writeWord64 (n : UInt64) : Bytes :=
  [byteAt n.toNat 7, byteAt n.toNat 6, byteAt n.toNat 5, byteAt n.toNat 4,
    byteAt n.toNat 3, byteAt n.toNat 2, byteAt n.toNat 1, byteAt n.toNat 0]

/-- Eight bytes; negative numbers as two's complement. -/
def writeInt64 (n : Int64) : Bytes := writeWord64 n.toUInt64

def valueOf (bytes : Bytes) : Nat := bytes.foldl (fun n b => 256 * n + b.toNat) 0

/-- The first `n` bytes and the rest. -/
def splitAt? (n : Nat) (bytes : Bytes) : Option (Bytes × Bytes) :=
  if n ≤ bytes.length then some (bytes.take n, bytes.drop n) else none

def readWord32? (bytes : Bytes) : Option (UInt32 × Bytes) :=
  (splitAt? 4 bytes).map fun (word, rest) => (UInt32.ofNat (valueOf word), rest)

def readInt32? (bytes : Bytes) : Option (Int32 × Bytes) :=
  (readWord32? bytes).map fun (n, rest) => (n.toInt32, rest)

def readInt64? (bytes : Bytes) : Option (Int64 × Bytes) :=
  (splitAt? 8 bytes).map fun (word, rest) => ((UInt64.ofNat (valueOf word)).toInt64, rest)

end CheckpointedLog.Wire
