import CheckpointedLog.Proofs.Except
import CheckpointedLog.Proofs.Snapshot.Wire
import CheckpointedLog.Proofs.SortedMap
import CheckpointedLog.Proofs.Text.Utf8
import CheckpointedLog.Snapshot.Format

namespace CheckpointedLog

theorem Offset.ofRaw?_eq_some_iff {raw : Int64} {o : Offset} :
    ofRaw? raw = some o ↔ Means raw.toInt o := by
  constructor
  · intro h
    unfold ofRaw? at h
    split at h
    next hraw => exact Option.some.inj h ▸ hraw ▸ Means.earliest
    split at h
    next hraw => exact Option.some.inj h ▸ hraw ▸ Means.latest
    split at h
    next hraw => exact Option.some.inj h ▸ hraw ▸ Means.groupCommitted
    split at h
    next hraw => exact Option.some.inj h ▸ Means.concrete (Int64.le_iff_toInt_le.mp hraw)
    next => cases h
  · intro h
    generalize hn : raw.toInt = n at h
    cases h with
    | concrete hlast =>
      obtain rfl := Int64.toInt_inj.mp hn
      have hne (n : Int64) (hlow : n.toInt < -1) : raw ≠ n := by
        rintro rfl
        omega
      have hearliest := hne earliestRaw (by decide)
      have hlatest := hne latestRaw (by decide)
      have hcommitted := hne groupCommittedRaw (by decide)
      have hle : -1 ≤ raw := Int64.le_iff_toInt_le.mpr hlast
      rw [ofRaw?, if_neg hearliest, if_neg hlatest, if_neg hcommitted, if_pos hle]
    | earliest =>
      obtain rfl : raw = earliestRaw := Int64.toInt_inj.mp hn
      rfl
    | latest =>
      obtain rfl : raw = latestRaw := Int64.toInt_inj.mp hn
      rfl
    | groupCommitted =>
      obtain rfl : raw = groupCommittedRaw := Int64.toInt_inj.mp hn
      rfl

namespace Wire

theorem exists_int32_of_spells {word : Bytes} {x : Int} (h : Spells 4 word x) :
    ∃ n : Int32, n.toInt = x :=
  ⟨_, (toInt_ofNat_valueOf_four h.length).trans h.value⟩

theorem exists_int64_of_spells {word : Bytes} {x : Int} (h : Spells 8 word x) :
    ∃ n : Int64, n.toInt = x :=
  ⟨_, (toInt_ofNat_valueOf_eight h.length).trans h.value⟩

end Wire

namespace Snapshot

-- The readers are proved one on another and cited as `Iff.mp h`: a name such as `h.mp` is looked up
-- inside the proof of `h`, which would then have to be finished first.

theorem readInt32_eq_ok_iff {field : Field} {bytes rest : Bytes} {n : Int32} :
    readInt32 field bytes = .ok (n, rest) ↔
      ∃ word, bytes = word ++ rest ∧ Wire.Spells 4 word n.toInt := by
  rw [← Wire.readInt32?_eq_some_iff, readInt32]
  cases Wire.readInt32? bytes with
  | none =>
    constructor
    · intro h
      cases h
    · intro h
      cases h
  | some x => exact ⟨fun h => congrArg some (Except.ok.inj h),
      fun h => congrArg Except.ok (Option.some.inj h)⟩

theorem readInt64_eq_ok_iff {field : Field} {bytes rest : Bytes} {n : Int64} :
    readInt64 field bytes = .ok (n, rest) ↔
      ∃ word, bytes = word ++ rest ∧ Wire.Spells 8 word n.toInt := by
  rw [← Wire.readInt64?_eq_some_iff, readInt64]
  cases Wire.readInt64? bytes with
  | none =>
    constructor
    · intro h
      cases h
    · intro h
      cases h
  | some x => exact ⟨fun h => congrArg some (Except.ok.inj h),
      fun h => congrArg Except.ok (Option.some.inj h)⟩

theorem readTopic_eq_ok_iff {entry : Nat} {bytes rest : Bytes} {topic : String} :
    readTopic entry bytes = .ok (topic, rest) ↔
      ∃ length, bytes = length ++ (Utf8.encode topic ++ rest) ∧
        Wire.Spells 4 length (Utf8.encode topic).length := by
  constructor
  · intro h
    unfold readTopic at h
    obtain ⟨⟨n, bytes'⟩, hn, h⟩ := exists_of_bind_eq_ok h
    obtain ⟨length, hbytes, hlength⟩ := readInt32_eq_ok_iff.mp hn
    simp only at h
    split at h
    · cases h
    next hnonneg =>
    rw [Int32.lt_iff_toInt_lt, Int32.toInt_zero, Int.not_lt] at hnonneg
    split at h
    · cases h
    next front rest' hsplit =>
    obtain ⟨hbytes', hfront⟩ := Wire.splitAt?_eq_some_iff.mp hsplit
    split at h
    · cases h
    next topic' hdecode =>
    obtain ⟨rfl, rfl⟩ := Prod.mk.inj (Except.ok.inj h)
    obtain rfl := Utf8.decode_eq_ok_iff.mp hdecode
    refine ⟨length, ?_, hlength.length, ?_⟩
    · rw [hbytes, hbytes']
    · rw [hlength.value, hfront, Int.toNat_of_nonneg hnonneg]
  · rintro ⟨length, rfl, hlength⟩
    -- The length is that of a topic, so that it is not negative.
    obtain ⟨n, hn⟩ := Wire.exists_int32_of_spells hlength
    have hread : readInt32 .topicLength (length ++ (Utf8.encode topic ++ rest)) =
        .ok (n, Utf8.encode topic ++ rest) :=
      readInt32_eq_ok_iff.mpr ⟨length, rfl, hn ▸ hlength⟩
    have hnonneg : ¬ n < 0 := by
      rw [Int32.lt_iff_toInt_lt, Int32.toInt_zero, hn]
      omega
    have hdecode : Utf8.decode (Utf8.encode topic) = .ok topic := Utf8.decode_encode topic
    rw [readTopic, hread]
    simp only [bind, Except.bind, if_neg hnonneg, hn, Int.toNat_natCast, Wire.splitAt?_append rfl,
      hdecode, pure, Except.pure]

theorem readEntry_eq_ok_iff {entry : Nat} {bytes rest : Bytes} {p : Partition} {o : Offset} :
    readEntry entry bytes = .ok (p, o, rest) ↔
      ∃ front, bytes = front ++ rest ∧ EntryLayout front (p, o) := by
  constructor
  · intro h
    unfold readEntry at h
    obtain ⟨⟨topic, bytes₁⟩, htopic, h⟩ := exists_of_bind_eq_ok h
    obtain ⟨⟨index, bytes₂⟩, hindex, h⟩ := exists_of_bind_eq_ok h
    obtain ⟨⟨raw, bytes₃⟩, hraw, h⟩ := exists_of_bind_eq_ok h
    obtain ⟨length, hbytes, hlength⟩ := Iff.mp readTopic_eq_ok_iff htopic
    obtain ⟨word, hbytes₁, hword⟩ := readInt32_eq_ok_iff.mp hindex
    obtain ⟨long, hbytes₂, hlong⟩ := readInt64_eq_ok_iff.mp hraw
    simp only at h
    split at h
    · cases h
    next offset hoffset =>
    obtain ⟨rfl, rfl, rfl⟩ := Except.ok.inj h
    refine ⟨length ++ Utf8.encode topic ++ word ++ long, ?_, ?_⟩
    · rw [hbytes, hbytes₁, hbytes₂]
      simp only [List.append_assoc]
    · exact .fields hlength rfl hword hlong (Offset.ofRaw?_eq_some_iff.mp hoffset)
  · rintro ⟨front, rfl, hlayout⟩
    cases hlayout with
    | @fields length topic index offset _ _ raw hlength htopic hindex hoffset hmeans =>
    subst htopic
    obtain ⟨n, rfl⟩ := Wire.exists_int64_of_spells hoffset
    have htopic : readTopic entry (length ++ (Utf8.encode p.topic ++ (index ++ (offset ++ rest)))) =
        .ok (p.topic, index ++ (offset ++ rest)) :=
      Iff.mpr readTopic_eq_ok_iff ⟨length, rfl, hlength⟩
    have hindex : readInt32 .partitionIndex (index ++ (offset ++ rest)) =
        .ok (p.index, offset ++ rest) :=
      readInt32_eq_ok_iff.mpr ⟨index, rfl, hindex⟩
    have hoffset : readInt64 .offset (offset ++ rest) = .ok (n, rest) :=
      readInt64_eq_ok_iff.mpr ⟨offset, rfl, hoffset⟩
    simp only [List.append_assoc]
    rw [readEntry, htopic]
    simp only [bind, Except.bind, hindex, hoffset, Offset.ofRaw?_eq_some_iff.mpr hmeans, pure,
      Except.pure]

/-- Entries are read into a state that has none of their partitions, each partition once. -/
theorem readEntries_eq_ok_iff {s s' : OffsetState} {entry count : Nat} {bytes rest : Bytes} :
    readEntries s entry count bytes = .ok (s', rest) ↔
      ∃ body entries, bytes = body ++ rest ∧ EntriesLayout body entries ∧ entries.length = count ∧
        (entries.map (·.1)).Nodup ∧ (∀ e ∈ entries, s.contains e.1 = false) ∧
        s' = entries.foldl (fun m e => m.insert e.1 e.2) s := by
  -- The induction is on the number of entries that are left; `s` has those that were read.
  induction count generalizing s entry bytes with
  | zero =>
    constructor
    · intro h
      obtain ⟨rfl, rfl⟩ := Prod.mk.inj (Except.ok.inj h)
      exact ⟨[], [], rfl, .nil, rfl, List.nodup_nil, by simp, rfl⟩
    · rintro ⟨body, entries, rfl, hbody, hlength, -, -, rfl⟩
      obtain rfl := List.eq_nil_of_length_eq_zero hlength
      cases hbody
      rfl
  | succ count ih =>
    constructor
    · intro h
      unfold readEntries at h
      obtain ⟨⟨p, o, bytes'⟩, hentry, h⟩ := exists_of_bind_eq_ok h
      obtain ⟨front, hbytes, hfront⟩ := Iff.mp readEntry_eq_ok_iff hentry
      simp only at h
      split at h
      · cases h
      next hp =>
      obtain ⟨body, entries, hbytes', hbody, hlength, hdistinct, hnew, rfl⟩ := ih.mp h
      simp only [SortedMap.contains_insert, Bool.or_eq_false_iff, decide_eq_false_iff_not] at hnew
      refine ⟨front ++ body, (p, o) :: entries, ?_, .cons hfront hbody,
        congrArg (· + 1) hlength, ?_, ?_, rfl⟩
      · rw [hbytes, hbytes', List.append_assoc]
      · refine List.nodup_cons.mpr ⟨fun hmem => ?_, hdistinct⟩
        obtain ⟨e, he, hkey⟩ := List.mem_map.mp hmem
        exact (hnew e he).1 hkey
      · exact List.forall_mem_cons.mpr ⟨Bool.eq_false_iff.mpr hp, fun e he => (hnew e he).2⟩
    · rintro ⟨body, entries, rfl, hbody, hlength, hdistinct, hnew, rfl⟩
      cases hbody with
      | nil => cases hlength
      | @cons front body e entries hfront hbody =>
      obtain ⟨hkey, hdistinct⟩ := List.nodup_cons.mp hdistinct
      obtain ⟨he, hnew⟩ := List.forall_mem_cons.mp hnew
      have hentry : readEntry entry (front ++ (body ++ rest)) = .ok (e.1, e.2, body ++ rest) :=
        Iff.mpr readEntry_eq_ok_iff ⟨front, rfl, hfront⟩
      have hrest : readEntries (s.insert e.1 e.2) (entry + 1) count (body ++ rest) =
          .ok (entries.foldl (fun m e => m.insert e.1 e.2) (s.insert e.1 e.2), rest) := by
        refine ih.mpr ⟨body, entries, rfl, hbody, Nat.succ.inj hlength, hdistinct, ?_, rfl⟩
        -- The later entries stay new, since their partitions are distinct from this one.
        intro x hx
        have hne : x.1 ≠ e.1 := fun hxe => hkey (List.mem_map.mpr ⟨x, hx, hxe⟩)
        rw [SortedMap.contains_insert, hnew x hx, decide_eq_false hne]
        rfl
      rw [List.append_assoc, readEntries, hentry]
      simp only [bind, Except.bind, he]
      exact hrest

theorem readUnversioned_eq_ok_iff {bytes : Bytes} {s : OffsetState} :
    readUnversioned bytes = .ok s ↔ UnversionedLayout bytes s := by
  constructor
  · intro h
    unfold readUnversioned at h
    obtain ⟨⟨n, bytes'⟩, hn, h⟩ := exists_of_bind_eq_ok h
    obtain ⟨count, hbytes, hcount⟩ := readInt32_eq_ok_iff.mp hn
    simp only at h
    split at h
    · cases h
    next hnonneg =>
    rw [Int32.lt_iff_toInt_lt, Int32.toInt_zero, Int.not_lt] at hnonneg
    obtain ⟨⟨s', rest⟩, hentries, h⟩ := exists_of_bind_eq_ok h
    obtain ⟨body, entries, hbytes', hbody, hlength, hdistinct, -, hs'⟩ :=
      Iff.mp readEntries_eq_ok_iff hentries
    simp only at h
    split at h
    next hrest =>
      obtain rfl := Except.ok.inj h
      rw [hbytes, hbytes', List.isEmpty_iff.mp hrest, List.append_nil, hs']
      refine .counted ⟨hcount.length, ?_⟩ hbody hdistinct fun p o => SortedMap.get?_ofList_iff hdistinct
      rw [hcount.value, hlength, Int.toNat_of_nonneg hnonneg]
    next => cases h
  · intro h
    cases h with
    | @counted count body entries _ hcount hbody hdistinct hstate =>
    obtain ⟨n, hn⟩ := Wire.exists_int32_of_spells hcount
    have hread : readInt32 .entryCount (count ++ body) = .ok (n, body) :=
      readInt32_eq_ok_iff.mpr ⟨count, rfl, hn ▸ hcount⟩
    have hnonneg : ¬ n < 0 := by
      rw [Int32.lt_iff_toInt_lt, Int32.toInt_zero, hn]
      omega
    -- The look-ups determine the state.
    have hs : s = entries.foldl (fun m e => m.insert e.1 e.2) .empty := by
      apply SortedMap.ext_get?
      intro p
      apply Option.ext
      intro o
      rw [hstate]
      exact (SortedMap.get?_ofList_iff hdistinct).symm
    have hentries : readEntries .empty 0 entries.length body = .ok (s, []) :=
      Iff.mpr readEntries_eq_ok_iff
        ⟨body, entries, (List.append_nil body).symm, hbody, rfl, hdistinct, fun _ _ => rfl, hs⟩
    rw [readUnversioned, hread]
    simp only [bind, Except.bind, if_neg hnonneg, hn, Int.toNat_natCast, hentries, List.isEmpty_nil,
      if_true, pure, Except.pure]

theorem toInt32_nonneg_iff {n : UInt32} : 0 ≤ n.toInt32 ↔ n.toNat < 2147483648 := by
  rw [Int32.le_iff_toInt_le, Int32.toInt_zero]
  change 0 ≤ n.toBitVec.toInt ↔ _
  rw [BitVec.toInt_eq_toNat_cond]
  have hlt := n.toNat_lt
  change 0 ≤ (if 2 * n.toNat < 4294967296 then (n.toNat : Int) else n.toNat - 4294967296) ↔ _
  split <;> omega

theorem toNat_and_low (n : UInt32) : (n &&& 0xFFFF).toNat = n.toNat % 65536 :=
  (UInt32.toNat_and n 0xFFFF).trans (Nat.and_two_pow_sub_one_eq_mod n.toNat 16)

theorem and_high_eq_tagMark_iff {n : UInt32} :
    n &&& 0xFFFF0000 = tagMark ↔ n.toNat / 65536 = 0xA55E := by
  have hlt := n.toNat_lt
  have hhigh : (n.toNat &&& 0xFFFF0000) / 65536 = n.toNat / 65536 := by
    have hshift : (n.toNat &&& 0xFFFF0000) >>> 16 = n.toNat >>> 16 &&& 0xFFFF :=
      Nat.shiftRight_and_distrib
    rw [Nat.and_two_pow_sub_one_eq_mod _ 16, Nat.shiftRight_eq_div_pow,
      Nat.shiftRight_eq_div_pow] at hshift
    omega
  have hlow : (n.toNat &&& 0xFFFF0000) % 65536 = 0 := by
    have hmod := Nat.and_mod_two_pow (a := n.toNat) (b := 0xFFFF0000) (n := 16)
    exact hmod.trans (Nat.and_zero _)
  rw [← UInt32.toNat_inj, UInt32.toNat_and]
  change n.toNat &&& 0xFFFF0000 = 0xA55E0000 ↔ _
  omega

/-- Bytes are in the old form as far as the header shows if they begin with a count. -/
theorem formatVersion_of_readInt32 {bytes rest : Bytes} {n : Int32}
    (h : readInt32 .entryCount bytes = .ok (n, rest)) (hn : ¬ n < 0) :
    formatVersion bytes = .ok none := by
  unfold readInt32 Wire.readInt32? at h
  cases hword : Wire.readWord32? bytes with
  | none =>
    rw [hword] at h
    cases h
  | some x =>
    rw [hword] at h
    obtain ⟨rfl, -⟩ := Prod.mk.inj (Except.ok.inj h)
    rw [formatVersion, hword]
    exact if_pos (Int32.not_lt.mp hn)

theorem formatVersion_eq_ok_some_iff {bytes : Bytes} {version : UInt32} :
    formatVersion bytes = .ok (some version) ↔ Tagged version.toNat bytes := by
  constructor
  · intro h
    unfold formatVersion at h
    split at h
    · cases h
    next n rest hword =>
    obtain ⟨a, b, c, d, rfl, hn⟩ := Wire.readWord32?_eq_some_iff.mp hword
    split at h
    · cases h
    split at h
    · cases h
    next hmark =>
    obtain rfl := Option.some.inj (Except.ok.inj h)
    -- The upper half is that of the tag, which leaves no choice for the first two bytes.
    have hhigh := and_high_eq_tagMark_iff.mp (Decidable.not_not.mp hmark)
    have hb := b.toNat_lt
    have hc := c.toNat_lt
    have hd := d.toNat_lt
    obtain rfl : a = 0xA5 := UInt8.toNat_inj.mp (show a.toNat = 165 by omega)
    obtain rfl : b = 0x5E := UInt8.toNat_inj.mp (show b.toNat = 94 by omega)
    refine ⟨c, d, rest, rfl, ?_⟩
    rw [toNat_and_low]
    omega
  · rintro ⟨c, d, rest, rfl, hversion⟩
    have hc := c.toNat_lt
    have hd := d.toNat_lt
    have hword : Wire.readWord32? (0xA5 :: 0x5E :: c :: d :: rest) =
        some (UInt32.ofNat (0xA55E0000 + version.toNat), rest) := by
      refine Wire.readWord32?_eq_some_iff.mpr ⟨0xA5, 0x5E, c, d, rfl, ?_⟩
      rw [UInt32.toNat_ofNat', hversion]
      change _ = 16777216 * 165 + 65536 * 94 + 256 * c.toNat + d.toNat
      omega
    generalize hn : UInt32.ofNat (0xA55E0000 + version.toNat) = n at hword
    have hvalue : n.toNat = 0xA55E0000 + version.toNat := by
      rw [← hn, UInt32.toNat_ofNat']
      omega
    have hnegative : ¬ 0 ≤ n.toInt32 := by
      rw [toInt32_nonneg_iff]
      omega
    have hmark : n &&& 0xFFFF0000 = tagMark := and_high_eq_tagMark_iff.mpr (by omega)
    have hlow : n &&& 0xFFFF = version := by
      apply UInt32.toNat_inj.mp
      rw [toNat_and_low]
      omega
    rw [formatVersion, hword]
    simp only [if_neg hnegative, hmark, ne_eq, not_true_eq_false, if_false, hlow]

theorem formatVersion_of_tag (rest : Bytes) :
    formatVersion (0xA5 :: 0x5E :: 0x00 :: 0x01 :: rest) = .ok (some 1) :=
  Iff.mpr formatVersion_eq_ok_some_iff ⟨0, 1, rest, rfl, rfl⟩

theorem read_of_formatVersion_none {bytes : Bytes} (h : formatVersion bytes = .ok none) :
    read bytes = (readUnversioned bytes).mapError .corrupt := by
  rw [read, h]
  rfl

theorem read_of_formatVersion_some {bytes : Bytes} {version : UInt32}
    (h : formatVersion bytes = .ok (some version)) : read bytes = readTagged bytes := by
  rw [read, h]
  rfl

theorem readTagged_of_formatVersion {bytes : Bytes} {version : UInt32}
    (h : formatVersion bytes = .ok (some version)) :
    readTagged bytes =
      if 1 < version then .error (.unsupported version)
      else if version = 0 then .error (.corrupt .versionZero)
      else (readUnversioned (bytes.drop 4)).mapError .corrupt := by
  rw [readTagged, h]
  rfl

theorem readTagged_of_tag (rest : Bytes) :
    readTagged (0xA5 :: 0x5E :: 0x00 :: 0x01 :: rest) = (readUnversioned rest).mapError .corrupt := by
  rw [readTagged_of_formatVersion (formatVersion_of_tag rest)]
  rfl

theorem readTagged_eq_ok_iff {bytes : Bytes} {s : OffsetState} :
    readTagged bytes = .ok s ↔
      ∃ rest, bytes = 0xA5 :: 0x5E :: 0x00 :: 0x01 :: rest ∧ UnversionedLayout rest s := by
  constructor
  · intro h
    obtain ⟨version, hversion, -⟩ := exists_of_bind_eq_ok h
    cases version with
    | none =>
      rw [readTagged, hversion] at h
      cases h
    | some version =>
    have htagged := eq_ok_of_mapError hversion
    rw [readTagged_of_formatVersion htagged] at h
    split at h
    · cases h
    next hold =>
    split at h
    · cases h
    next hzero =>
    obtain rfl : version = 1 := by
      rw [UInt32.lt_iff_toNat_lt] at hold
      rw [← UInt32.toNat_inj] at hzero ⊢
      change ¬ 1 < version.toNat at hold
      change ¬ version.toNat = 0 at hzero
      change version.toNat = 1
      omega
    obtain ⟨high, low, rest, rfl, hone⟩ := Iff.mp formatVersion_eq_ok_some_iff htagged
    change 1 = 256 * high.toNat + low.toNat at hone
    obtain rfl : high = 0 := UInt8.toNat_inj.mp (show high.toNat = 0 by omega)
    obtain rfl : low = 1 := UInt8.toNat_inj.mp (show low.toNat = 1 by omega)
    exact ⟨rest, rfl, Iff.mp readUnversioned_eq_ok_iff (eq_ok_of_mapError h)⟩
  · rintro ⟨rest, rfl, hrest⟩
    rw [readTagged_of_tag, Iff.mpr readUnversioned_eq_ok_iff hrest]
    rfl

theorem formatVersion_of_readUnversioned {bytes : Bytes} {s : OffsetState}
    (h : readUnversioned bytes = .ok s) : formatVersion bytes = .ok none := by
  unfold readUnversioned at h
  obtain ⟨⟨n, rest⟩, hn, h⟩ := exists_of_bind_eq_ok h
  simp only at h
  split at h
  · cases h
  next hnonneg => exact formatVersion_of_readInt32 hn hnonneg

theorem read_eq_ok_iff {bytes : Bytes} {s : OffsetState} :
    read bytes = .ok s ↔ Layout bytes s := by
  constructor
  · intro h
    obtain ⟨version, hversion, -⟩ := exists_of_bind_eq_ok h
    cases version with
    | none =>
      rw [read_of_formatVersion_none (eq_ok_of_mapError hversion)] at h
      exact .unversioned (Iff.mp readUnversioned_eq_ok_iff (eq_ok_of_mapError h))
    | some version =>
      rw [read_of_formatVersion_some (eq_ok_of_mapError hversion)] at h
      obtain ⟨rest, rfl, hrest⟩ := Iff.mp readTagged_eq_ok_iff h
      exact .tagged hrest
  · intro h
    cases h with
    | unversioned h =>
      -- A count is not negative, so that these bytes are not taken for a tag.
      have hread := Iff.mpr readUnversioned_eq_ok_iff h
      rw [read_of_formatVersion_none (formatVersion_of_readUnversioned hread), hread]
      rfl
    | @tagged bytes _ h =>
      rw [read_of_formatVersion_some (formatVersion_of_tag bytes)]
      exact Iff.mpr readTagged_eq_ok_iff ⟨bytes, rfl, h⟩

theorem ne_unsupported_of_mapError {α : Type} {x : Except Corruption α} {version : UInt32} :
    x.mapError Fault.corrupt ≠ .error (.unsupported version) := by
  cases x <;> nofun

theorem read_eq_unsupported_iff {bytes : Bytes} {version : UInt32} :
    read bytes = .error (.unsupported version) ↔ 2 ≤ version.toNat ∧ Tagged version.toNat bytes := by
  have hnew (version : UInt32) : 1 < version ↔ 2 ≤ version.toNat := UInt32.lt_iff_toNat_lt
  constructor
  · intro h
    cases hversion : formatVersion bytes with
    | error cause =>
      rw [read, hversion] at h
      cases h
    | ok found =>
    cases found with
    | none =>
      rw [read_of_formatVersion_none hversion] at h
      exact absurd h ne_unsupported_of_mapError
    | some found =>
      rw [read_of_formatVersion_some hversion, readTagged_of_formatVersion hversion] at h
      split at h
      next hfound =>
        obtain rfl := Fault.unsupported.inj (Except.error.inj h)
        exact ⟨(hnew found).mp hfound, Iff.mp formatVersion_eq_ok_some_iff hversion⟩
      split at h
      · cases h
      · exact absurd h ne_unsupported_of_mapError
  · rintro ⟨hversion, htagged⟩
    have hfound := Iff.mpr formatVersion_eq_ok_some_iff htagged
    rw [read_of_formatVersion_some hfound, readTagged_of_formatVersion hfound]
    exact if_pos ((hnew version).mpr hversion)

theorem Tagged.exists_word {version : Nat} {bytes : Bytes} (h : Tagged version bytes) :
    ∃ word : UInt32, word.toNat = version := by
  obtain ⟨high, low, rest, -, rfl⟩ := h
  have hhigh := high.toNat_lt
  have hlow := low.toNat_lt
  refine ⟨UInt32.ofNat (256 * high.toNat + low.toNat), ?_⟩
  rw [UInt32.toNat_ofNat']
  omega

theorem mapError_toError_eq_unsupported_iff {α : Type} {x : Except Fault α} {version : UInt32} :
    x.mapError Fault.toError = .error (.unsupportedVersion version 1) ↔
      x = .error (.unsupported version) := by
  constructor
  · intro h
    cases x with
    | ok a => cases h
    | error fault =>
    cases fault with
    | corrupt cause => cases h
    | unsupported found =>
      obtain ⟨rfl, -⟩ := SourceError.unsupportedVersion.inj (Except.error.inj h)
      rfl
  · rintro rfl
    rfl

/-- The bytes of the grammar are read as the state they are a snapshot of. All other bytes are corrupt,
except those with the tag of a version after 1, which are refused for this version whatever follows. -/
theorem read_decides_layout (bytes : Bytes) :
    (∀ s, read bytes = .ok s ↔ Layout bytes s) ∧
    (∀ version : UInt32,
      (read bytes).mapError Fault.toError = .error (.unsupportedVersion version 1) ↔
        2 ≤ version.toNat ∧ Tagged version.toNat bytes) ∧
    ((∃ message, (read bytes).mapError Fault.toError = .error (.corruptState message)) ↔
      (¬ ∃ s, Layout bytes s) ∧ ¬ ∃ version, 2 ≤ version ∧ Tagged version bytes) := by
  refine ⟨fun s => read_eq_ok_iff, fun version => ?_, ?_, ?_⟩
  · exact mapError_toError_eq_unsupported_iff.trans read_eq_unsupported_iff
  · rintro ⟨message, h⟩
    refine ⟨?_, ?_⟩
    · rintro ⟨s, hs⟩
      rw [read_eq_ok_iff.mpr hs] at h
      cases h
    · rintro ⟨version, hversion, htagged⟩
      obtain ⟨version, rfl⟩ := htagged.exists_word
      rw [read_eq_unsupported_iff.mpr ⟨hversion, htagged⟩] at h
      cases h
  · rintro ⟨hlayout, htagged⟩
    rcases hread : read bytes with fault | s
    · cases fault with
      | corrupt cause => exact ⟨cause.message, rfl⟩
      | unsupported version =>
        exact absurd ⟨version.toNat, read_eq_unsupported_iff.mp hread⟩ htagged
    · exact absurd ⟨s, read_eq_ok_iff.mp hread⟩ hlayout

end Snapshot

end CheckpointedLog
