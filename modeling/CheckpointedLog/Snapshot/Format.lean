import CheckpointedLog.OffsetState
import CheckpointedLog.Snapshot.Release
import CheckpointedLog.Snapshot.Wire

/-!
Offset states as snapshot bytes. A snapshot is a tag with the version of the format, the number of
entries, and for each entry the length of the topic, its UTF-8 bytes, the partition index and the
offset. The old form lacks the tag; since a tag read as a number is negative and a number of entries
is not, no bytes have both forms.
-/
namespace CheckpointedLog.Snapshot

/-- The numbers of a snapshot that may be cut off. -/
inductive Field where
  | header
  | entryCount
  | topicLength
  | partitionIndex
  | offset
deriving DecidableEq, Repr

def Field.name : Field → String
  | header => "snapshot header"
  | entryCount => "entry count"
  | topicLength => "topic length"
  | partitionIndex => "partition index"
  | offset => "offset"

/-- What is wrong with the bytes of a snapshot. Entries are counted from 0. -/
inductive Corruption where
  | truncated (field : Field)
  | unknownHeader (tag : UInt32)
  | untagged
  | versionZero
  | negativeCount (count : Int32)
  | negativeTopicLength (entry : Nat)
  | truncatedTopic (entry : Nat)
  | malformedTopic (entry : Nat) (fault : Utf8.Fault)
  | invalidOffset (raw : Int64) (partition : Partition)
  | duplicate (partition : Partition)
  | trailing (count : Nat)
deriving DecidableEq, Repr

/-- A number of 32 bits in hexadecimal, with all its digits. -/
def hexWord (n : UInt32) : String :=
  let digits := Nat.toDigits 16 n.toNat
  "0x" ++ String.ofList (List.replicate (8 - digits.length) '0' ++ digits)

def Corruption.message : Corruption → String
  | truncated field => "truncated " ++ field.name
  | unknownHeader tag => "unrecognized snapshot header " ++ hexWord tag
  | untagged => "snapshot has no format tag"
  | versionZero => "format version 0 is not valid"
  | negativeCount count => "negative entry count " ++ toString count.toInt
  | negativeTopicLength entry => "negative topic length in entry " ++ toString entry
  | truncatedTopic entry => "truncated topic name in entry " ++ toString entry
  | malformedTopic entry fault =>
    "invalid topic name in entry " ++ toString entry ++ ": " ++ fault.message
  | invalidOffset raw p => "invalid offset " ++ toString raw.toInt ++ " for " ++ p.display
  | duplicate p => "duplicate entry for " ++ p.display
  | trailing count => toString count ++ " trailing bytes after last entry"

/-- Why bytes are not read as a snapshot. -/
inductive Fault where
  | corrupt (cause : Corruption)
  | unsupported (version : UInt32)
deriving DecidableEq, Repr

/-- The version that is written, and the newest one that is read. -/
def currentVersion : UInt32 := 1

def Fault.toError : Fault → SourceError
  | corrupt cause => .corruptState cause.message
  | unsupported version => .unsupportedVersion version currentVersion

/-- The tag of version 0; the lower half of a tag is the version. -/
def tagMark : UInt32 := 0xA55E0000

def writeEntry (p : Partition) (o : Offset) : Bytes :=
  let topic := Utf8.encode p.topic
  Wire.writeInt32 (Int32.ofNat topic.length) ++ topic ++ Wire.writeInt32 p.index
    ++ Wire.writeInt64 o.toRaw

/-- The number of entries, then the entries in ascending order: the old form of a snapshot. -/
def writeUnversioned (s : OffsetState) : Bytes :=
  Wire.writeInt32 (Int32.ofNat s.size) ++ s.entries.flatMap fun e => writeEntry e.1 e.2

def write (s : OffsetState) : Bytes :=
  Wire.writeWord32 (tagMark ||| currentVersion) ++ writeUnversioned s

/-- The version in the tag of a snapshot; none for the old form. -/
def formatVersion (bytes : Bytes) : Except Corruption (Option UInt32) :=
  match Wire.readWord32? bytes with
  | none => .error (.truncated .header)
  | some (head, _) =>
    if 0 ≤ head.toInt32 then .ok none
    else if head &&& 0xFFFF0000 ≠ tagMark then .error (.unknownHeader head)
    else .ok (some (head &&& 0xFFFF))

def readInt32 (field : Field) (bytes : Bytes) : Except Corruption (Int32 × Bytes) :=
  (Wire.readInt32? bytes).elim (.error (.truncated field)) .ok

def readInt64 (field : Field) (bytes : Bytes) : Except Corruption (Int64 × Bytes) :=
  (Wire.readInt64? bytes).elim (.error (.truncated field)) .ok

/-- Reads the topic of entry `entry`: its length and its bytes. -/
def readTopic (entry : Nat) (bytes : Bytes) : Except Corruption (String × Bytes) := do
  let (length, bytes) ← readInt32 .topicLength bytes
  if length < 0 then throw (.negativeTopicLength entry)
  match Wire.splitAt? length.toInt.toNat bytes with
  | none => throw (.truncatedTopic entry)
  | some (topic, bytes) =>
    match Utf8.decode topic with
    | .error fault => throw (.malformedTopic entry fault)
    | .ok topic => return (topic, bytes)

def readEntry (entry : Nat) (bytes : Bytes) : Except Corruption (Partition × Offset × Bytes) := do
  let (topic, bytes) ← readTopic entry bytes
  let (index, bytes) ← readInt32 .partitionIndex bytes
  let (raw, bytes) ← readInt64 .offset bytes
  match Offset.ofRaw? raw with
  | none => throw (.invalidOffset raw ⟨topic, index⟩)
  | some offset => return (⟨topic, index⟩, offset, bytes)

/-- Reads `count` more entries into a state, beginning with entry `entry`. -/
def readEntries (s : OffsetState) (entry : Nat) :
    (count : Nat) → Bytes → Except Corruption (OffsetState × Bytes)
  | 0, bytes => .ok (s, bytes)
  | count + 1, bytes => do
    let (p, o, bytes) ← readEntry entry bytes
    if s.contains p then throw (.duplicate p)
    readEntries (s.insert p o) (entry + 1) count bytes

/-- Reads the number of entries and the entries, up to the end of the bytes. -/
def readUnversioned (bytes : Bytes) : Except Corruption OffsetState := do
  let (count, bytes) ← readInt32 .entryCount bytes
  if count < 0 then throw (.negativeCount count)
  let (s, rest) ← readEntries .empty 0 count.toInt.toNat bytes
  if rest.isEmpty then return s else throw (.trailing rest.length)

def readTagged (bytes : Bytes) : Except Fault OffsetState := do
  match ← (formatVersion bytes).mapError .corrupt with
  | none => throw (.corrupt .untagged)
  | some version =>
    if currentVersion < version then throw (.unsupported version)
    if version = 0 then throw (.corrupt .versionZero)
    (readUnversioned (bytes.drop 4)).mapError .corrupt

def readAs : SnapshotForm → Bytes → Except Fault OffsetState
  | .unversioned, bytes => (readUnversioned bytes).mapError .corrupt
  | .tagged, bytes => readTagged bytes

def readFrom (release : Release) (bytes : Bytes) : Except Fault OffsetState :=
  readAs release.form bytes

def read (bytes : Bytes) : Except Fault OffsetState := do
  match ← (formatVersion bytes).mapError .corrupt with
  | none => readAs .unversioned bytes
  | some _ => readAs .tagged bytes

end CheckpointedLog.Snapshot
