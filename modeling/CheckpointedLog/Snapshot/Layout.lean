import Mathlib.Algebra.Group.Int.Defs
import Mathlib.Algebra.Group.Nat.Defs
import CheckpointedLog.OffsetState
import CheckpointedLog.Text.Utf8

/-!
The grammar of snapshots: which bytes are a snapshot of which state. It says nothing of how bytes are
read or written, and it allows entries in any order, though they are written in ascending order.
-/
namespace CheckpointedLog

namespace Wire

/-- The number that bytes spell, the most significant byte first. -/
def unsigned : Bytes → Nat
  | [] => 0
  | b :: bytes => b.toNat * 256 ^ bytes.length + unsigned bytes

def signed (bytes : Bytes) : Int :=
  if 2 * unsigned bytes < 256 ^ bytes.length then unsigned bytes
  else unsigned bytes - 256 ^ bytes.length

/-- `width` bytes that spell the number `n` in two's complement. -/
structure Spells (width : Nat) (bytes : Bytes) (n : Int) : Prop where
  length : bytes.length = width
  value : signed bytes = n

end Wire

/-- The offset that a stored number means. Every number has at most one meaning. -/
inductive Offset.Means : Int → Offset → Prop where
  | concrete {last : Int64} (h : -1 ≤ last.toInt) : Means last.toInt (.concrete last)
  | earliest : Means (-915623761775) .earliest
  | latest : Means (-915623761774) .latest
  | groupCommitted : Means (-915623761773) .groupCommitted

namespace Snapshot

/-- The bytes of an entry: the length of the topic, its UTF-8 bytes, the index and the offset. -/
inductive EntryLayout : Bytes → Partition × Offset → Prop where
  | fields {length topic index offset : Bytes} {p : Partition} {o : Offset} {raw : Int}
      (hlength : Wire.Spells 4 length topic.length) (htopic : topic = Utf8.encode p.topic)
      (hindex : Wire.Spells 4 index p.index.toInt) (hoffset : Wire.Spells 8 offset raw)
      (hmeans : Offset.Means raw o) :
      EntryLayout (length ++ topic ++ index ++ offset) (p, o)

/-- The bytes of entries, one after the other. -/
inductive EntriesLayout : Bytes → List (Partition × Offset) → Prop where
  | nil : EntriesLayout [] []
  | cons {bytes rest : Bytes} {e : Partition × Offset} {entries : List (Partition × Offset)}
      (h : EntryLayout bytes e) (hrest : EntriesLayout rest entries) :
      EntriesLayout (bytes ++ rest) (e :: entries)

/-- The number of entries and the entries of a state, each partition once. -/
inductive UnversionedLayout : Bytes → OffsetState → Prop where
  | counted {count body : Bytes} {entries : List (Partition × Offset)} {s : OffsetState}
      (hcount : Wire.Spells 4 count entries.length) (hbody : EntriesLayout body entries)
      (hdistinct : (entries.map (·.1)).Nodup)
      (hstate : ∀ p o, s.get? p = some o ↔ (p, o) ∈ entries) :
      UnversionedLayout (count ++ body) s

/-- The bytes of a snapshot of a state. They may begin with the tag of version 1. -/
inductive Layout : Bytes → OffsetState → Prop where
  | unversioned {bytes : Bytes} {s : OffsetState} (h : UnversionedLayout bytes s) : Layout bytes s
  | tagged {bytes : Bytes} {s : OffsetState} (h : UnversionedLayout bytes s) :
      Layout (0xA5 :: 0x5E :: 0x00 :: 0x01 :: bytes) s

def Tagged (version : Nat) (bytes : Bytes) : Prop :=
  ∃ high low rest, bytes = 0xA5 :: 0x5E :: high :: low :: rest ∧
    version = 256 * high.toNat + low.toNat

end Snapshot

end CheckpointedLog
