import Mathlib.Data.List.Nodup
import CheckpointedLog.Proofs.Snapshot.RoundTrip

namespace CheckpointedLog

namespace Wire

theorem unsigned_injective {a b : Bytes} (hlength : a.length = b.length)
    (h : unsigned a = unsigned b) : a = b := by
  induction a generalizing b with
  | nil => exact (List.eq_nil_of_length_eq_zero hlength.symm).symm
  | cons x a ih =>
    cases b with
    | nil => cases hlength
    | cons y b =>
    have htail : a.length = b.length := Nat.succ.inj hlength
    have ha := unsigned_lt a
    have hb := unsigned_lt b
    rw [unsigned, unsigned, htail] at h
    rw [htail] at ha
    have hpos : 0 < 256 ^ b.length := Nat.lt_of_le_of_lt (Nat.zero_le _) hb
    -- The first byte is the quotient by the unit of its place, the other bytes are the remainder.
    have hfirst : x.toNat = y.toNat := by
      have hdiv := congrArg (· / 256 ^ b.length) h
      simp only [Nat.mul_comm _ (256 ^ b.length), Nat.mul_add_div hpos, Nat.div_eq_of_lt ha,
        Nat.div_eq_of_lt hb, Nat.add_zero] at hdiv
      exact hdiv
    have hrest : unsigned a = unsigned b := by
      rw [hfirst] at h
      exact Nat.add_left_cancel h
    rw [UInt8.toNat_inj.mp hfirst, ih htail hrest]

theorem Spells.unique {width : Nat} {a b : Bytes} {n : Int} (ha : Spells width a n)
    (hb : Spells width b n) : a = b := by
  have hlength : a.length = b.length := ha.length.trans hb.length.symm
  apply unsigned_injective hlength
  have hvalue := ha.value.trans hb.value.symm
  have hlow := unsigned_lt a
  have hhigh := unsigned_lt b
  rw [hlength] at hlow
  have hunit : (256 : Int) ^ b.length = ((256 ^ b.length : Nat) : Int) :=
    (Int.natCast_pow 256 b.length).symm
  rw [signed, signed, hlength, hunit] at hvalue
  generalize 256 ^ b.length = unit at hvalue hlow hhigh
  split at hvalue <;> split at hvalue <;> omega

theorem Spells.lt_four {bytes : Bytes} {n : Int} (h : Spells 4 bytes n) : n < 2 ^ 31 := by
  obtain ⟨x, rfl⟩ := exists_int32_of_spells h
  exact x.toInt_lt

end Wire

theorem Offset.Means.raw_eq {raw : Int} {o : Offset} (h : Means raw o) : raw = o.toRaw.toInt := by
  cases h with
  | concrete | earliest | latest | groupCommitted => rfl

/-- The order in which the entries of a snapshot are written: by the bytes of the topic, then by the
index. -/
def Partition.ByteBefore (p q : Partition) : Prop :=
  Utf8.encode p.topic < Utf8.encode q.topic ∨
    Utf8.encode p.topic = Utf8.encode q.topic ∧ p.index < q.index

theorem Partition.compare_eq_lt_iff {p q : Partition} : compare p q = .lt ↔ p.ByteBefore q := by
  have htopic : compare p.topic q.topic = .lt ↔ Utf8.encode p.topic < Utf8.encode q.topic := by
    rw [Utf8.encode_lt_iff]
    exact compareOfLessAndEq_eq_lt
  have hsame : compare p.topic q.topic = .eq ↔ Utf8.encode p.topic = Utf8.encode q.topic := by
    rw [Std.LawfulEqCmp.compare_eq_iff_eq]
    exact Utf8.encode_inj.symm
  have hindex : compare p.index q.index = .lt ↔ p.index < q.index := compareOfLessAndEq_eq_lt
  change (compare p.topic q.topic).then (compare p.index q.index) = .lt ↔ _
  rw [Ordering.then_eq_lt, htopic, hsame, hindex]
  rfl

namespace Snapshot

theorem EntryLayout.unique {a b : Bytes} {e : Partition × Offset} (ha : EntryLayout a e)
    (hb : EntryLayout b e) : a = b := by
  cases ha with
  | fields hlength htopic hindex hoffset hmeans =>
  cases hb with
  | fields hlength' htopic' hindex' hoffset' hmeans' =>
  subst htopic htopic'
  obtain rfl := hlength.unique hlength'
  obtain rfl := hindex.unique hindex'
  obtain rfl := hmeans.raw_eq.trans hmeans'.raw_eq.symm
  obtain rfl := hoffset.unique hoffset'
  rfl

theorem EntriesLayout.unique {a b : Bytes} {entries : List (Partition × Offset)}
    (ha : EntriesLayout a entries) (hb : EntriesLayout b entries) : a = b := by
  induction ha generalizing b with
  | nil =>
    cases hb
    rfl
  | cons hentry _ ih =>
    cases hb with
    | cons hentry' hrest' => rw [hentry.unique hentry', ih hrest']

theorem EntriesLayout.topic_lt {bytes : Bytes} {entries : List (Partition × Offset)}
    (h : EntriesLayout bytes entries) :
    ∀ e ∈ entries, (Utf8.encode e.1.topic).length < 2 ^ 31 := by
  induction h with
  | nil => exact fun _ he => absurd he List.not_mem_nil
  | cons hentry _ ih =>
    cases hentry with
    | fields hlength htopic =>
      have hlt := hlength.lt_four
      subst htopic
      exact List.forall_mem_cons.mpr ⟨by exact_mod_cast hlt, ih⟩

theorem UnversionedLayout.countable {bytes : Bytes} {s : OffsetState}
    (h : UnversionedLayout bytes s) : s.Countable := by
  cases h with
  | @counted count body entries _ hcount hbody hdistinct hstate =>
  have hmem (e : Partition × Offset) : e ∈ s.entries ↔ e ∈ entries :=
    SortedMap.get?_eq_some_iff.symm.trans (hstate e.1 e.2)
  -- The state lists the same entries, in another order.
  have hperm : s.entries.Perm entries :=
    (List.perm_ext_iff_of_nodup (s.nodup_keys.of_map _) (hdistinct.of_map _)).mpr hmem
  have hsize : s.entries.length < 2 ^ 31 := by
    have hlt := hcount.lt_four
    rw [hperm.length_eq]
    exact_mod_cast hlt
  exact OffsetState.countable_of_entries hsize fun e he => hbody.topic_lt e ((hmem e).mp he)

theorem read_countable {bytes : Bytes} {s : OffsetState} (h : read bytes = .ok s) :
    s.Countable := by
  cases read_eq_ok_iff.mp h with
  | unversioned hlayout | tagged hlayout => exact hlayout.countable

/-- The bytes of a snapshot that has a tag and its entries in strictly ascending order. -/
inductive CanonicalLayout : Bytes → Prop where
  | ascending {count body : Bytes} {entries : List (Partition × Offset)}
      (hcount : Wire.Spells 4 count entries.length) (hbody : EntriesLayout body entries)
      (hascending : (entries.map (·.1)).Pairwise Partition.ByteBefore) :
      CanonicalLayout (0xA5 :: 0x5E :: 0x00 :: 0x01 :: (count ++ body))

/-- What was read from bytes is written as the same bytes exactly if they are in canonical form. -/
theorem write_eq_iff {bytes : Bytes} {s : OffsetState} (h : read bytes = .ok s) :
    write s = bytes ↔ CanonicalLayout bytes := by
  obtain ⟨count, body, hwrite, hcount, hbody⟩ :=
    writeUnversioned_layout (read_countable h) (read_storable h)
  have hbytes : write s = 0xA5 :: 0x5E :: 0x00 :: 0x01 :: (count ++ body) := congrArg _ hwrite
  constructor
  · rintro rfl
    rw [hbytes]
    refine .ascending hcount hbody (List.pairwise_map.mpr (s.ascending.imp ?_))
    intro a b hab
    exact Partition.compare_eq_lt_iff.mp hab
  · intro hcanonical
    cases hcanonical with
    | @ascending count' body' entries hcount' hbody' hascending =>
    have hordered : entries.Pairwise fun a b => compare a.1 b.1 = .lt :=
      (List.pairwise_map.mp hascending).imp Partition.compare_eq_lt_iff.mpr
    -- Entries in this order are the listing of a state, which can only be the one that was read.
    have hlayout : UnversionedLayout (count' ++ body') ⟨entries, hordered⟩ :=
      .counted hcount' hbody' (SortedMap.nodup_keys ⟨entries, hordered⟩) fun p o =>
        SortedMap.get?_eq_some_iff
    obtain rfl := Except.ok.inj (h.symm.trans (read_eq_ok_iff.mpr (.tagged hlayout)))
    rw [hbytes, hcount.unique hcount', hbody.unique hbody']

end Snapshot

end CheckpointedLog
