import CheckpointedLog.Snapshot.Layout
import CheckpointedLog.Snapshot.Wire

namespace CheckpointedLog.Wire

theorem splitAt?_append {n : Nat} {bytes : Bytes} (h : bytes.length = n) (rest : Bytes) :
    splitAt? n (bytes ++ rest) = some (bytes, rest) := by
  have hle : n ≤ (bytes ++ rest).length := by
    rw [List.length_append]
    omega
  rw [splitAt?, if_pos hle, List.take_left' h, List.drop_left' h]

theorem append_byteAt (n k : Nat) :
    256 * (n >>> (8 * (k + 1))) + (byteAt n k).toNat = n >>> (8 * k) := by
  rw [byteAt, UInt8.toNat_ofNat', Nat.mul_succ, Nat.shiftRight_add, Nat.shiftRight_eq_div_pow _ 8]
  exact Nat.div_add_mod _ _

theorem valueOf_writeWord32 (n : UInt32) : valueOf (writeWord32 n) = n.toNat := by
  have hfirst := append_byteAt n.toNat 3
  rw [Nat.shiftRight_eq_div_pow, Nat.div_eq_of_lt n.toNat_lt] at hfirst
  simp only [writeWord32, valueOf, List.foldl_cons, List.foldl_nil]
  rw [hfirst, append_byteAt, append_byteAt, append_byteAt]
  rfl

theorem valueOf_writeWord64 (n : UInt64) : valueOf (writeWord64 n) = n.toNat := by
  have hfirst := append_byteAt n.toNat 7
  rw [Nat.shiftRight_eq_div_pow, Nat.div_eq_of_lt n.toNat_lt] at hfirst
  simp only [writeWord64, valueOf, List.foldl_cons, List.foldl_nil]
  rw [hfirst, append_byteAt, append_byteAt, append_byteAt, append_byteAt, append_byteAt,
    append_byteAt, append_byteAt]
  rfl

theorem foldl_eq_unsigned (n : Nat) (bytes : Bytes) :
    bytes.foldl (fun n b => 256 * n + b.toNat) n = n * 256 ^ bytes.length + unsigned bytes := by
  induction bytes generalizing n with
  | nil => simp [unsigned]
  | cons b bytes ih =>
    rw [List.foldl_cons, ih, unsigned, List.length_cons, Nat.add_mul, Nat.pow_succ']
    have hassoc : 256 * n * 256 ^ bytes.length = n * (256 * 256 ^ bytes.length) := by
      rw [Nat.mul_comm 256 n, Nat.mul_assoc]
    omega

theorem valueOf_eq_unsigned (bytes : Bytes) : valueOf bytes = unsigned bytes := by
  rw [valueOf, foldl_eq_unsigned, Nat.zero_mul, Nat.zero_add]

theorem unsigned_lt (bytes : Bytes) : unsigned bytes < 256 ^ bytes.length := by
  induction bytes with
  | nil => decide
  | cons b bytes ih =>
    have hb : b.toNat + 1 ≤ 256 := b.toNat_lt
    rw [unsigned, List.length_cons, Nat.pow_succ']
    calc b.toNat * 256 ^ bytes.length + unsigned bytes
        < b.toNat * 256 ^ bytes.length + 256 ^ bytes.length := Nat.add_lt_add_left ih _
      _ = (b.toNat + 1) * 256 ^ bytes.length := by rw [Nat.succ_mul]
      _ ≤ 256 * 256 ^ bytes.length := Nat.mul_le_mul_right _ hb

theorem toInt_ofNat_valueOf_four {bytes : Bytes} (h : bytes.length = 4) :
    (UInt32.ofNat (valueOf bytes)).toInt32.toInt = signed bytes := by
  have hlt := unsigned_lt bytes
  rw [h] at hlt
  have hvalue : (UInt32.ofNat (valueOf bytes)).toBitVec.toNat = unsigned bytes := by
    rw [valueOf_eq_unsigned]
    exact Nat.mod_eq_of_lt hlt
  change (UInt32.ofNat (valueOf bytes)).toBitVec.toInt = _
  rw [BitVec.toInt_eq_toNat_cond, hvalue, signed, h]
  rfl

theorem toInt_ofNat_valueOf_eight {bytes : Bytes} (h : bytes.length = 8) :
    (UInt64.ofNat (valueOf bytes)).toInt64.toInt = signed bytes := by
  have hlt := unsigned_lt bytes
  rw [h] at hlt
  have hvalue : (UInt64.ofNat (valueOf bytes)).toBitVec.toNat = unsigned bytes := by
    rw [valueOf_eq_unsigned]
    exact Nat.mod_eq_of_lt hlt
  change (UInt64.ofNat (valueOf bytes)).toBitVec.toInt = _
  rw [BitVec.toInt_eq_toNat_cond, hvalue, signed, h]
  rfl

theorem spells_writeInt32 (n : Int32) : Spells 4 (writeInt32 n) n.toInt where
  length := rfl
  value := by
    have hlength : (writeInt32 n).length = 4 := rfl
    rw [← toInt_ofNat_valueOf_four hlength, writeInt32, valueOf_writeWord32, UInt32.ofNat_toNat,
      Int32.toInt32_toUInt32]

theorem spells_writeInt64 (n : Int64) : Spells 8 (writeInt64 n) n.toInt where
  length := rfl
  value := by
    have hlength : (writeInt64 n).length = 8 := rfl
    rw [← toInt_ofNat_valueOf_eight hlength, writeInt64, valueOf_writeWord64, UInt64.ofNat_toNat,
      Int64.toInt64_toUInt64]

theorem splitAt?_eq_some_iff {n : Nat} {bytes front rest : Bytes} :
    splitAt? n bytes = some (front, rest) ↔ bytes = front ++ rest ∧ front.length = n := by
  constructor
  · intro h
    unfold splitAt? at h
    split at h
    next hle =>
      obtain ⟨rfl, rfl⟩ := Prod.mk.inj (Option.some.inj h)
      exact ⟨(List.take_append_drop n bytes).symm, List.length_take_of_le hle⟩
    next => cases h
  · rintro ⟨rfl, hlength⟩
    exact splitAt?_append hlength rest

/-- The four bytes of a number, the most significant one first. -/
theorem readWord32?_eq_some_iff {bytes rest : Bytes} {n : UInt32} :
    readWord32? bytes = some (n, rest) ↔
      ∃ a b c d : UInt8, bytes = a :: b :: c :: d :: rest ∧
        n.toNat = 16777216 * a.toNat + 65536 * b.toNat + 256 * c.toNat + d.toNat := by
  have hvalue (a b c d : UInt8) : (UInt32.ofNat (valueOf [a, b, c, d])).toNat =
      16777216 * a.toNat + 65536 * b.toNat + 256 * c.toNat + d.toNat := by
    have ha := a.toNat_lt
    have hb := b.toNat_lt
    have hc := c.toNat_lt
    have hd := d.toNat_lt
    rw [UInt32.toNat_ofNat']
    simp only [valueOf, List.foldl_cons, List.foldl_nil]
    omega
  simp only [readWord32?, Option.map_eq_some_iff, Prod.exists, Prod.mk.injEq,
    splitAt?_eq_some_iff]
  constructor
  · rintro ⟨word, rest, ⟨rfl, hlength⟩, rfl, rfl⟩
    obtain ⟨a, b, c, d, rfl⟩ : ∃ a b c d, word = [a, b, c, d] := by
      match word, hlength with
      | [a, b, c, d], _ => exact ⟨a, b, c, d, rfl⟩
    exact ⟨a, b, c, d, rfl, hvalue a b c d⟩
  · rintro ⟨a, b, c, d, rfl, hn⟩
    refine ⟨[a, b, c, d], rest, ⟨rfl, rfl⟩, ?_, rfl⟩
    exact UInt32.toNat_inj.mp ((hvalue a b c d).trans hn.symm)

theorem readInt32?_eq_some_iff {bytes rest : Bytes} {n : Int32} :
    readInt32? bytes = some (n, rest) ↔ ∃ word, bytes = word ++ rest ∧ Spells 4 word n.toInt := by
  simp only [readInt32?, readWord32?, Option.map_map, Option.map_eq_some_iff, Prod.exists,
    Function.comp, Prod.mk.injEq, splitAt?_eq_some_iff]
  constructor
  · rintro ⟨word, rest, ⟨rfl, hlength⟩, rfl, rfl⟩
    exact ⟨word, rfl, hlength, (toInt_ofNat_valueOf_four hlength).symm⟩
  · rintro ⟨word, rfl, hlength, hvalue⟩
    refine ⟨word, rest, ⟨rfl, hlength⟩, Int32.toInt_inj.mp ?_, rfl⟩
    rw [toInt_ofNat_valueOf_four hlength, hvalue]

theorem readInt64?_eq_some_iff {bytes rest : Bytes} {n : Int64} :
    readInt64? bytes = some (n, rest) ↔ ∃ word, bytes = word ++ rest ∧ Spells 8 word n.toInt := by
  simp only [readInt64?, Option.map_eq_some_iff, Prod.exists, Prod.mk.injEq, splitAt?_eq_some_iff]
  constructor
  · rintro ⟨word, rest, ⟨rfl, hlength⟩, rfl, rfl⟩
    exact ⟨word, rfl, hlength, (toInt_ofNat_valueOf_eight hlength).symm⟩
  · rintro ⟨word, rfl, hlength, hvalue⟩
    refine ⟨word, rest, ⟨rfl, hlength⟩, Int64.toInt_inj.mp ?_, rfl⟩
    rw [toInt_ofNat_valueOf_eight hlength, hvalue]

end CheckpointedLog.Wire
