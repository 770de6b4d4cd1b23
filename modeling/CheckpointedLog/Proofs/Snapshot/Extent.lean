import CheckpointedLog.Proofs.Snapshot.Detection

namespace CheckpointedLog.Snapshot

def Corruption.IsCut : Corruption → Prop
  | truncated _ | truncatedTopic _ => True
  | _ => False

section Readers

variable {α β : Type}

/-- The reader finds these bytes cut off as long as any of them is missing at the end. -/
def FindsCut (read : Bytes → Except Corruption α) (word : Bytes) : Prop :=
  ∀ front back, word = front ++ back → back ≠ [] → ∃ cause, cause.IsCut ∧ read front = .error cause

theorem findsCut_nil (read : Bytes → Except Corruption α) : FindsCut read [] := by
  intro front back hword hback
  have hnil : back = [] := (List.append_eq_nil_iff.mp hword.symm).2
  exact absurd hnil hback

/-- One reader after another. The first one must not look beyond its own bytes. -/
theorem FindsCut.bind {read : Bytes → Except Corruption α} {next : α → Except Corruption β}
    {word more : Bytes} {result : Bytes → α} (hread : ∀ rest, read (word ++ rest) = .ok (result rest))
    (hword : FindsCut read word) (hmore : FindsCut (fun rest => next (result rest)) more) :
    FindsCut (fun bytes => read bytes >>= next) (word ++ more) := by
  intro front back hbytes hback
  -- If the first reader has all of its bytes, it is the second one that lacks some.
  have hsecond (rest : Bytes) (hrest : more = rest ++ back) :
      ∃ cause, cause.IsCut ∧ (read (word ++ rest) >>= next) = .error cause := by
    rw [hread rest]
    exact hmore rest back hrest hback
  rcases List.append_eq_append_iff.mp hbytes with ⟨rest, hfront, hrest⟩ | ⟨missing, hfront, hrest⟩
  · rw [hfront]
    exact hsecond rest hrest
  · cases missing with
    | nil =>
      rw [List.append_nil] at hfront
      rw [← hfront, ← List.append_nil word]
      exact hsecond [] hrest.symm
    | cons b missing =>
      obtain ⟨cause, hcut, hcause⟩ := hword front (b :: missing) hfront (List.cons_ne_nil b missing)
      refine ⟨cause, hcut, ?_⟩
      dsimp only
      rw [hcause]
      rfl

end Readers

theorem splitAt?_of_short {n : Nat} {bytes : Bytes} (h : bytes.length < n) :
    Wire.splitAt? n bytes = none := if_neg (Nat.not_le.mpr h)

theorem length_lt_of_append {word front back : Bytes} (h : word = front ++ back) (hback : back ≠ []) :
    front.length < word.length := by
  have hpos : 0 < back.length := List.length_pos_iff.mpr hback
  rw [h, List.length_append]
  omega

theorem readInt32_of_short {field : Field} {bytes : Bytes} (h : bytes.length < 4) :
    readInt32 field bytes = .error (.truncated field) := by
  rw [readInt32, Wire.readInt32?, Wire.readWord32?, splitAt?_of_short h]
  rfl

theorem readInt64_of_short {field : Field} {bytes : Bytes} (h : bytes.length < 8) :
    readInt64 field bytes = .error (.truncated field) := by
  rw [readInt64, Wire.readInt64?, splitAt?_of_short h]
  rfl

theorem findsCut_readInt32 {field : Field} {word : Bytes} (h : word.length = 4) :
    FindsCut (readInt32 field) word := by
  intro front back hword hback
  have hshort := length_lt_of_append hword hback
  exact ⟨.truncated field, trivial, readInt32_of_short (h ▸ hshort)⟩

theorem findsCut_readInt64 {field : Field} {word : Bytes} (h : word.length = 8) :
    FindsCut (readInt64 field) word := by
  intro front back hword hback
  have hshort := length_lt_of_append hword hback
  exact ⟨.truncated field, trivial, readInt64_of_short (h ▸ hshort)⟩

theorem findsCut_readTopic {entry : Nat} {length : Bytes} {topic : String}
    (h : Wire.Spells 4 length (Utf8.encode topic).length) :
    FindsCut (readTopic entry) (length ++ Utf8.encode topic) := by
  obtain ⟨n, hn⟩ := Wire.exists_int32_of_spells h
  have hlength (rest : Bytes) : readInt32 .topicLength (length ++ rest) = .ok (n, rest) :=
    readInt32_eq_ok_iff.mpr ⟨length, rfl, hn ▸ h⟩
  have hnonneg : ¬ n < 0 := by
    rw [Int32.lt_iff_toInt_lt, Int32.toInt_zero, hn]
    omega
  apply FindsCut.bind hlength (findsCut_readInt32 h.length)
  intro front back htopic hback
  have hshort := length_lt_of_append htopic hback
  refine ⟨.truncatedTopic entry, trivial, ?_⟩
  simp only [bind, Except.bind, if_neg hnonneg, hn, Int.toNat_natCast, splitAt?_of_short hshort]
  rfl

theorem findsCut_readEntry {entry : Nat} {word : Bytes} {e : Partition × Offset}
    (h : EntryLayout word e) : FindsCut (readEntry entry) word := by
  cases h with
  | @fields length topic index offset p o raw hlength htopic hindex hoffset hmeans =>
  subst htopic
  have hreadTopic (rest : Bytes) :
      readTopic entry (length ++ Utf8.encode p.topic ++ rest) = .ok (p.topic, rest) :=
    readTopic_eq_ok_iff.mpr ⟨length, List.append_assoc .., hlength⟩
  have hreadIndex (rest : Bytes) : readInt32 .partitionIndex (index ++ rest) = .ok (p.index, rest) :=
    readInt32_eq_ok_iff.mpr ⟨index, rfl, hindex⟩
  obtain ⟨n, rfl⟩ := Wire.exists_int64_of_spells hoffset
  have hreadOffset (rest : Bytes) : readInt64 .offset (offset ++ rest) = .ok (n, rest) :=
    readInt64_eq_ok_iff.mpr ⟨offset, rfl, hoffset⟩
  rw [List.append_assoc, ← List.append_nil offset]
  apply FindsCut.bind hreadTopic (findsCut_readTopic hlength)
  apply FindsCut.bind hreadIndex (findsCut_readInt32 hindex.length)
  apply FindsCut.bind hreadOffset (findsCut_readInt64 hoffset.length)
  exact findsCut_nil _

theorem findsCut_readEntries {s s' : OffsetState} {entry count : Nat} {body : Bytes}
    (h : readEntries s entry count body = .ok (s', [])) : FindsCut (readEntries s entry count) body := by
  -- The induction is on the number of entries that are left, as for reading them.
  induction count generalizing s entry body with
  | zero =>
    obtain ⟨-, rfl⟩ := Prod.mk.inj (Except.ok.inj h)
    exact findsCut_nil _
  | succ count ih =>
    unfold readEntries at h
    obtain ⟨⟨p, o, rest⟩, hentry, h⟩ := exists_of_bind_eq_ok h
    obtain ⟨word, hbody, hword⟩ := readEntry_eq_ok_iff.mp hentry
    simp only at h
    split at h
    · cases h
    next hnew =>
    have hread (rest : Bytes) : readEntry entry (word ++ rest) = .ok (p, o, rest) :=
      readEntry_eq_ok_iff.mpr ⟨word, rfl, hword⟩
    rw [hbody]
    apply FindsCut.bind hread (findsCut_readEntry hword)
    simp only [if_neg hnew]
    exact ih h

theorem readEntries_append {s s' : OffsetState} {entry count : Nat} {bytes rest : Bytes}
    (h : readEntries s entry count bytes = .ok (s', rest)) (more : Bytes) :
    readEntries s entry count (bytes ++ more) = .ok (s', rest ++ more) := by
  obtain ⟨body, entries, hbytes, hentries⟩ := readEntries_eq_ok_iff.mp h
  apply readEntries_eq_ok_iff.mpr
  exact ⟨body, entries, by rw [hbytes, List.append_assoc], hentries⟩

/-- A count that is not negative and as many entries, with nothing behind them. -/
theorem exists_entries_of_readUnversioned {bytes : Bytes} {s : OffsetState}
    (h : readUnversioned bytes = .ok s) :
    ∃ count n body, bytes = count ++ body ∧ Wire.Spells 4 count n.toInt ∧ ¬ n < (0 : Int32) ∧
      readEntries .empty 0 n.toInt.toNat body = .ok (s, []) := by
  unfold readUnversioned at h
  obtain ⟨⟨n, body⟩, hn, h⟩ := exists_of_bind_eq_ok h
  obtain ⟨count, hbytes, hcount⟩ := readInt32_eq_ok_iff.mp hn
  simp only at h
  split at h
  · cases h
  next hnonneg =>
  obtain ⟨⟨s', rest⟩, hentries, h⟩ := exists_of_bind_eq_ok h
  simp only at h
  split at h
  next hrest =>
    obtain rfl := Except.ok.inj h
    rw [List.isEmpty_iff.mp hrest] at hentries
    exact ⟨count, n, body, hbytes, hcount, hnonneg, hentries⟩
  next => cases h

theorem findsCut_readUnversioned {bytes : Bytes} {s : OffsetState} (h : readUnversioned bytes = .ok s) :
    FindsCut readUnversioned bytes := by
  obtain ⟨count, n, body, hbytes, hcount, hnonneg, hentries⟩ := exists_entries_of_readUnversioned h
  have hreadCount (rest : Bytes) : readInt32 .entryCount (count ++ rest) = .ok (n, rest) :=
    readInt32_eq_ok_iff.mpr ⟨count, rfl, hcount⟩
  have hreadEntries (rest : Bytes) :
      readEntries .empty 0 n.toInt.toNat (body ++ rest) = .ok (s, rest) := readEntries_append hentries rest
  rw [hbytes, ← List.append_nil body]
  apply FindsCut.bind hreadCount (findsCut_readInt32 hcount.length)
  simp only [if_neg hnonneg]
  apply FindsCut.bind hreadEntries (findsCut_readEntries hentries)
  exact findsCut_nil _

theorem readUnversioned_append {bytes more : Bytes} {s : OffsetState} (h : readUnversioned bytes = .ok s)
    (hmore : more ≠ []) : readUnversioned (bytes ++ more) = .error (.trailing more.length) := by
  obtain ⟨count, n, body, hbytes, hcount, hnonneg, hentries⟩ := exists_entries_of_readUnversioned h
  have hreadCount : readInt32 .entryCount (count ++ (body ++ more)) = .ok (n, body ++ more) :=
    readInt32_eq_ok_iff.mpr ⟨count, rfl, hcount⟩
  have hreadEntries : readEntries .empty 0 n.toInt.toNat (body ++ more) = .ok (s, more) :=
    readEntries_append hentries more
  have hbehind : ¬ more.isEmpty = true := fun hempty => hmore (List.isEmpty_iff.mp hempty)
  rw [hbytes, List.append_assoc, readUnversioned, hreadCount]
  simp only [bind, Except.bind, if_neg hnonneg, hreadEntries, if_neg hbehind]
  rfl

theorem formatVersion_of_short {bytes : Bytes} (h : bytes.length < 4) :
    formatVersion bytes = .error (.truncated .header) := by
  rw [formatVersion, Wire.readWord32?, splitAt?_of_short h]
  rfl

theorem formatVersion_append {bytes : Bytes} (h : 4 ≤ bytes.length) (more : Bytes) :
    formatVersion (bytes ++ more) = formatVersion bytes := by
  have hword : (bytes.take 4).length = 4 := List.length_take_of_le h
  have hversion (rest : Bytes) : formatVersion (bytes.take 4 ++ rest) = formatVersion (bytes.take 4) := by
    rw [← List.append_nil (bytes.take 4), List.append_assoc, formatVersion, formatVersion,
      Wire.readWord32?, Wire.readWord32?, Wire.splitAt?_append hword, Wire.splitAt?_append hword]
    rfl
  calc formatVersion (bytes ++ more)
      = formatVersion (bytes.take 4 ++ (bytes.drop 4 ++ more)) := by
        rw [← List.append_assoc, List.take_append_drop]
    _ = formatVersion (bytes.take 4 ++ bytes.drop 4) := by rw [hversion, hversion]
    _ = formatVersion bytes := by rw [List.take_append_drop]

theorem four_le_length_of_announced {form : SnapshotForm} {bytes : Bytes} (h : form.Announced bytes) :
    4 ≤ bytes.length := by
  apply Nat.not_lt.mp
  intro hshort
  have hversion := formatVersion_of_short hshort
  cases form with
  | unversioned => cases hversion.symm.trans h
  | tagged =>
    obtain ⟨version, h⟩ := h
    cases hversion.symm.trans h

theorem announced_append_iff {form : SnapshotForm} {bytes : Bytes} (h : 4 ≤ bytes.length) (more : Bytes) :
    form.Announced (bytes ++ more) ↔ form.Announced bytes := by
  have hversion := formatVersion_append h more
  cases form with
  | unversioned =>
    change formatVersion (bytes ++ more) = _ ↔ formatVersion bytes = _
    rw [hversion]
  | tagged =>
    change (∃ version, formatVersion (bytes ++ more) = _) ↔ ∃ version, formatVersion bytes = _
    rw [hversion]

variable {form other : SnapshotForm} {bytes front back more : Bytes} {s : OffsetState}

/-- Bytes that are too few for a header are too few for a count, too. -/
theorem readAs_of_short (h : bytes.length < 4) :
    ∃ cause, cause.IsCut ∧ readAs form bytes = .error (.corrupt cause) := by
  cases form with
  | unversioned =>
    refine ⟨.truncated .entryCount, trivial, ?_⟩
    rw [readAs, readUnversioned, readInt32_of_short h]
    rfl
  | tagged =>
    refine ⟨.truncated .header, trivial, ?_⟩
    rw [readAs, readTagged, formatVersion_of_short h]
    rfl

theorem readAs_cut (h : readAs form (front ++ back) = .ok s) (hback : back ≠ []) :
    ∃ cause, cause.IsCut ∧ readAs form front = .error (.corrupt cause) := by
  by_cases hshort : front.length < 4
  · exact readAs_of_short hshort
  cases form with
  | unversioned =>
    obtain ⟨cause, hcut, hcause⟩ := findsCut_readUnversioned (eq_ok_of_mapError h) front back rfl hback
    refine ⟨cause, hcut, ?_⟩
    rw [readAs, hcause]
    rfl
  | tagged =>
    obtain ⟨rest, hbytes, hrest⟩ := readTagged_eq_ok_iff.mp h
    -- Of a header that is complete nothing is missing: it is the whole tag.
    have htag : [0xA5, 0x5E, 0x00, 0x01] <+: front :=
      List.prefix_of_prefix_length_le ⟨rest, hbytes.symm⟩ (List.prefix_append front back)
        (Nat.not_lt.mp hshort)
    obtain ⟨entries, rfl⟩ := htag
    rw [List.append_assoc] at hbytes
    have hentries : rest = entries ++ back := (List.append_cancel_left hbytes).symm
    have hread := readUnversioned_eq_ok_iff.mpr hrest
    obtain ⟨cause, hcut, hcause⟩ := findsCut_readUnversioned hread entries back hentries hback
    refine ⟨cause, hcut, ?_⟩
    simp only [List.cons_append, List.nil_append]
    rw [readAs, readTagged_of_tag, hcause]
    rfl

theorem readAs_append (h : readAs form bytes = .ok s) (hmore : more ≠ []) :
    readAs form (bytes ++ more) = .error (.corrupt (.trailing more.length)) := by
  cases form with
  | unversioned =>
    rw [readAs, readUnversioned_append (eq_ok_of_mapError h) hmore]
    rfl
  | tagged =>
    obtain ⟨rest, rfl, hrest⟩ := readTagged_eq_ok_iff.mp h
    have hread := readUnversioned_eq_ok_iff.mpr hrest
    simp only [List.cons_append]
    rw [readAs, readTagged_of_tag, readUnversioned_append hread hmore]
    rfl

/-- No reader takes the bytes for a snapshot, and none takes them for one of a later version. -/
structure Refused (bytes : Bytes) : Prop where
  read : ∃ message, (read bytes).mapError Fault.toError = .error (.corruptState message)
  readFrom (release : Release) :
    ∃ message, (readFrom release bytes).mapError Fault.toError = .error (.corruptState message)

theorem refused_of_corrupt (hread : ∃ cause, read bytes = .error (.corrupt cause))
    (hreadAs : ∀ form, ∃ cause, readAs form bytes = .error (.corrupt cause)) : Refused bytes := by
  constructor
  · obtain ⟨cause, hcause⟩ := hread
    refine ⟨cause.message, ?_⟩
    rw [hcause]
    rfl
  · intro release
    obtain ⟨cause, hcause⟩ := hreadAs release.form
    refine ⟨cause.message, ?_⟩
    rw [readFrom, hcause]
    rfl

/-- Where the header is complete, what the reader of the announced form says decides. -/
theorem refused_of_announced {cause : Corruption} (hform : form.Announced bytes)
    (hcause : readAs form bytes = .error (.corrupt cause)) :
    Refused bytes ∧ read bytes = .error (.corrupt cause) := by
  have hread : read bytes = .error (.corrupt cause) := (read_of_announced hform).trans hcause
  refine ⟨refused_of_corrupt ⟨cause, hread⟩ fun other => ?_, hread⟩
  by_cases hother : other = form
  · exact ⟨cause, hother ▸ hcause⟩
  · exact corrupt_of_announced hform hother

theorem refused_of_short (h : bytes.length < 4) :
    Refused bytes ∧ read bytes = .error (.corrupt (.truncated .header)) := by
  have hread : read bytes = .error (.corrupt (.truncated .header)) := by
    rw [read, formatVersion_of_short h]
    rfl
  refine ⟨refused_of_corrupt ⟨_, hread⟩ fun form => ?_, hread⟩
  obtain ⟨cause, -, hcause⟩ : ∃ cause, cause.IsCut ∧ readAs form bytes = .error (.corrupt cause) :=
    readAs_of_short h
  exact ⟨cause, hcause⟩

/-- If some bytes are missing at the end of a snapshot, or others stand behind it, each reader refuses it as
corrupt. The reader that looks at the header tells the two apart: missing bytes are reported where they are
needed, and the bytes behind the snapshot are counted. -/
theorem cut_or_extended_refused (h : read bytes = .ok s) :
    (∀ part, part <+: bytes → part ≠ bytes →
      Refused part ∧ ∃ cause, cause.IsCut ∧ read part = .error (.corrupt cause)) ∧
    ∀ longer, bytes <+: longer → longer ≠ bytes →
      Refused longer ∧ read longer = .error (.corrupt (.trailing (longer.length - bytes.length))) := by
  obtain ⟨form, hform⟩ := exists_readAs_of_read h
  have hannounced := announced_of_readAs hform
  constructor
  · intro part hpart hne
    obtain ⟨back, rfl⟩ := hpart
    have hback : back ≠ [] := fun hnil => hne (by rw [hnil, List.append_nil])
    by_cases hshort : part.length < 4
    · obtain ⟨hrefused, hread⟩ := refused_of_short hshort
      exact ⟨hrefused, .truncated .header, trivial, hread⟩
    · have hpart := (announced_append_iff (Nat.not_lt.mp hshort) back).mp hannounced
      obtain ⟨cause, hcut, hcause⟩ := readAs_cut hform hback
      obtain ⟨hrefused, hread⟩ := refused_of_announced hpart hcause
      exact ⟨hrefused, cause, hcut, hread⟩
  · intro longer hlonger hne
    obtain ⟨more, rfl⟩ := hlonger
    have hmore : more ≠ [] := fun hnil => hne (by rw [hnil, List.append_nil])
    have hlength := four_le_length_of_announced hannounced
    rw [List.length_append, Nat.add_sub_cancel_left]
    exact refused_of_announced ((announced_append_iff hlength more).mpr hannounced)
      (readAs_append hform hmore)

/-- Two entries that are not in the order in which they are written, without the end of the second topic and
with a byte more. -/
theorem cut_or_extended_refused_of_unordered :
    let bytes : Bytes := [0xA5, 0x5E, 0, 1, 0, 0, 0, 2, 0, 0, 0, 1, 98, 0, 0, 0, 0, 0, 0, 0, 0, 0, 0, 0, 5,
      0, 0, 0, 2, 97, 97, 255, 255, 255, 255, 255, 255, 255, 255, 255, 255, 255, 255]
    read bytes = .ok (.ofList [(⟨"aa", -1⟩, .concrete (-1)), (⟨"b", 0⟩, .concrete 5)]) ∧
    (Refused (bytes.take 30) ∧ ∃ cause, cause.IsCut ∧ read (bytes.take 30) = .error (.corrupt cause)) ∧
    Refused (bytes ++ [0]) ∧ read (bytes ++ [0]) = .error (.corrupt (.trailing 1)) := by
  intro bytes
  have hread : read bytes = .ok (.ofList [(⟨"aa", -1⟩, .concrete (-1)), (⟨"b", 0⟩, .concrete 5)]) :=
    eq_ok_of_toOption (by decide +kernel)
  have hdetected := cut_or_extended_refused hread
  refine ⟨hread, ?_, ?_⟩
  · exact hdetected.1 _ (List.take_prefix 30 bytes) (by decide)
  · exact hdetected.2 _ (List.prefix_append bytes [0]) (by decide)

end CheckpointedLog.Snapshot
