import CheckpointedLog.Text.Utf8

namespace CheckpointedLog.Utf8

theorem toNat_ofNat_of_lt {n : Nat} (h : n < 256) : (UInt8.ofNat n).toNat = n := by
  rw [UInt8.toNat_ofNat']
  exact Nat.mod_eq_of_lt h

theorem decodeFrom_single (start : Nat) {n : Nat} (h : n ≤ 0x7F) (rest : Bytes) :
    decodeFrom start none (UInt8.ofNat n :: rest) =
      (decodeFrom (start + 1) none rest).map (Char.ofNat n :: ·) := by
  have hn : (UInt8.ofNat n).toNat = n := toNat_ofNat_of_lt (by omega)
  have hlt : UInt8.ofNat n < 0x80 := by
    rw [UInt8.lt_iff_toNat_lt, hn, show (0x80 : UInt8).toNat = 128 from rfl]
    omega
  rw [decodeFrom, if_pos hlt, hn]

theorem decodeFrom_first (start : Nat) {n : Nat} (hlow : 0x80 ≤ n) (hhigh : n < 256) {p : Partial}
    (hp : begin? n = some p) (rest : Bytes) :
    decodeFrom start none (UInt8.ofNat n :: rest) = decodeFrom start (some p) rest := by
  have hn : (UInt8.ofNat n).toNat = n := toNat_ofNat_of_lt hhigh
  have hlt : ¬ UInt8.ofNat n < 0x80 := by
    rw [UInt8.lt_iff_toNat_lt, hn, show (0x80 : UInt8).toNat = 128 from rfl]
    omega
  rw [decodeFrom, if_neg hlt, hn, hp]

theorem decodeFrom_next (start : Nat) {value low high more used n : Nat} (hlow : low ≤ n + 0x80)
    (hhigh : n + 0x80 ≤ high) (hn : n < 64) (rest : Bytes) :
    decodeFrom start (some ⟨value, low, high, more + 1, used⟩) (UInt8.ofNat (n + 0x80) :: rest) =
      decodeFrom start (some ⟨value * 64 + n, 0x80, 0xBF, more, used + 1⟩) rest := by
  have hb : (UInt8.ofNat (n + 0x80)).toNat = n + 0x80 := toNat_ofNat_of_lt (by omega)
  rw [decodeFrom, hb, if_pos ⟨hlow, hhigh⟩, Nat.add_sub_cancel]

theorem decodeFrom_last (start : Nat) {value low high used n : Nat} (hlow : low ≤ n + 0x80)
    (hhigh : n + 0x80 ≤ high) (hn : n < 64) (rest : Bytes) :
    decodeFrom start (some ⟨value, low, high, 0, used⟩) (UInt8.ofNat (n + 0x80) :: rest) =
      (decodeFrom (start + used + 1) none rest).map (Char.ofNat (value * 64 + n) :: ·) := by
  have hb : (UInt8.ofNat (n + 0x80)).toNat = n + 0x80 := toNat_ofNat_of_lt (by omega)
  rw [decodeFrom, hb, if_pos ⟨hlow, hhigh⟩, Nat.add_sub_cancel]

theorem begin?_two {n : Nat} (hlow : 2 ≤ n) (hhigh : n < 32) :
    begin? (n + 0xC0) = some ⟨n, 0x80, 0xBF, 0, 1⟩ := by
  rw [begin?, if_pos (by omega), Nat.add_sub_cancel]

/-- A character of three bytes is no surrogate and has no shorter form, so its second byte is in the
range that its first byte allows. -/
theorem begin?_three {v : Nat} (hlow : 0x7FF < v) (hhigh : v ≤ 0xFFFF)
    (hv : v < 0xD800 ∨ 0xDFFF < v) :
    ∃ low high, begin? (v / 4096 + 0xE0) = some ⟨v / 4096, low, high, 1, 1⟩ ∧
      low ≤ v / 64 % 64 + 0x80 ∧ v / 64 % 64 + 0x80 ≤ high := by
  rw [begin?, if_neg (by omega)]
  -- Two first bytes narrow the range of the second byte.
  by_cases h0 : v / 4096 + 0xE0 = 0xE0
  · rw [if_pos h0, show v / 4096 = 0 by omega]
    exact ⟨_, _, rfl, by omega, by omega⟩
  rw [if_neg h0]
  by_cases hD : v / 4096 + 0xE0 = 0xED
  · rw [if_pos hD, show v / 4096 = 0xD by omega]
    exact ⟨_, _, rfl, by omega, by omega⟩
  rw [if_neg hD, if_pos (by omega), Nat.add_sub_cancel]
  exact ⟨_, _, rfl, by omega, by omega⟩

theorem begin?_four {v : Nat} (hlow : 0xFFFF < v) (hhigh : v < 0x110000) :
    ∃ low high, begin? (v / 262144 % 8 + 0xF0) = some ⟨v / 262144, low, high, 2, 1⟩ ∧
      low ≤ v / 4096 % 64 + 0x80 ∧ v / 4096 % 64 + 0x80 ≤ high := by
  rw [show v / 262144 % 8 = v / 262144 by omega, begin?, if_neg (by omega), if_neg (by omega),
    if_neg (by omega), if_neg (by omega)]
  by_cases h0 : v / 262144 + 0xF0 = 0xF0
  · rw [if_pos h0, show v / 262144 = 0 by omega]
    exact ⟨_, _, rfl, by omega, by omega⟩
  rw [if_neg h0]
  by_cases h4 : v / 262144 + 0xF0 = 0xF4
  · rw [if_neg (by omega), if_pos h4, show v / 262144 = 4 by omega]
    exact ⟨_, _, rfl, by omega, by omega⟩
  rw [if_pos (by omega), Nat.add_sub_cancel]
  exact ⟨_, _, rfl, by omega, by omega⟩

theorem decodeFrom_encodeChar (start : Nat) (c : Char) (rest : Bytes) :
    ∃ next, decodeFrom start none (String.utf8EncodeChar c ++ rest) =
      (decodeFrom next none rest).map (c :: ·) := by
  have hvalid : c.val.toNat < 0xD800 ∨ (0xDFFF < c.val.toNat ∧ c.val.toNat < 0x110000) := c.valid
  have hchar : Char.ofNat c.val.toNat = c := Char.ofNat_toNat c
  rw [String.utf8EncodeChar]
  -- From here on the character is a number; its length decides between four forms.
  generalize c.val.toNat = v at hvalid hchar ⊢
  split
  next h1 => exact ⟨start + 1, by rw [List.singleton_append, decodeFrom_single start h1, hchar]⟩
  next h1 =>
  split
  next h2 =>
    refine ⟨start + 1 + 1, ?_⟩
    rw [Nat.mod_eq_of_lt (show v / 64 < 32 by omega), List.cons_append, List.singleton_append,
      decodeFrom_first start (by omega) (by omega) (begin?_two (by omega) (by omega)),
      decodeFrom_last start (by omega) (by omega) (by omega),
      show v / 64 * 64 + v % 64 = v by omega, hchar]
  next h2 =>
  split
  next h3 =>
    obtain ⟨low, high, hbegin, hlow, hhigh⟩ := begin?_three (v := v) (by omega) h3 (by omega)
    refine ⟨start + 2 + 1, ?_⟩
    rw [Nat.mod_eq_of_lt (show v / 4096 < 16 by omega), List.cons_append, List.cons_append,
      List.singleton_append, decodeFrom_first start (by omega) (by omega) hbegin,
      decodeFrom_next start hlow hhigh (by omega),
      decodeFrom_last start (by omega) (by omega) (by omega),
      show (v / 4096 * 64 + v / 64 % 64) * 64 + v % 64 = v by omega, hchar]
  next h3 =>
    obtain ⟨low, high, hbegin, hlow, hhigh⟩ := begin?_four (v := v) (by omega) (by omega)
    refine ⟨start + 3 + 1, ?_⟩
    rw [List.cons_append, List.cons_append, List.cons_append, List.singleton_append,
      decodeFrom_first start (by omega) (by omega) hbegin,
      decodeFrom_next start hlow hhigh (by omega),
      decodeFrom_next start (by omega) (by omega) (by omega),
      decodeFrom_last start (by omega) (by omega) (by omega),
      show ((v / 262144 * 64 + v / 4096 % 64) * 64 + v / 64 % 64) * 64 + v % 64 = v by omega, hchar]

theorem decodeFrom_flatMap (start : Nat) (cs : List Char) :
    decodeFrom start none (cs.flatMap String.utf8EncodeChar) = .ok cs := by
  induction cs generalizing start with
  | nil => rfl
  | cons c cs ih =>
    obtain ⟨next, hnext⟩ := decodeFrom_encodeChar start c (cs.flatMap String.utf8EncodeChar)
    rw [List.flatMap_cons, hnext, ih]
    rfl

theorem decode_encode (s : String) : decode (encode s) = .ok s := by
  rw [decode, encode, decodeFrom_flatMap]
  exact congrArg Except.ok String.ofList_toList

/-- The value of a character of more than one byte that is read is that of a character. -/
theorem toNat_ofNat {v : Nat} (h : v < 0xD800 ∨ (0xDFFF < v ∧ v < 0x110000)) :
    (Char.ofNat v).val.toNat = v := by
  have hvalid : v.isValidChar := h
  rw [Char.ofNat, dif_pos hvalid]
  rfl

theorem encodeChar_one {b : UInt8} (h : b < 0x80) :
    String.utf8EncodeChar (Char.ofNat b.toNat) = [b] := by
  rw [UInt8.lt_iff_toNat_lt, show (0x80 : UInt8).toNat = 128 from rfl] at h
  rw [String.utf8EncodeChar, toNat_ofNat (by omega), if_pos (by omega), UInt8.ofNat_toNat]

/-- The byte that has the lowest six bits of a number below those of its mark. -/
theorem byte_eq_ofNat {b : UInt8} {n : Nat} (h : b.toNat = n) : b = UInt8.ofNat n := by
  rw [← h, UInt8.ofNat_toNat]

theorem encodeChar_two {b c : UInt8} {v : Nat} (hv : 0x7F < v) (hv' : v ≤ 0x7FF)
    (hb : b.toNat = v / 64 + 0xC0) (hc : c.toNat = v % 64 + 0x80) :
    String.utf8EncodeChar (Char.ofNat v) = [b, c] := by
  rw [String.utf8EncodeChar, toNat_ofNat (by omega), if_neg (by omega), if_pos (by omega),
    Nat.mod_eq_of_lt (show v / 64 < 32 by omega), byte_eq_ofNat hb, byte_eq_ofNat hc]

theorem encodeChar_three {b c d : UInt8} {v : Nat} (hv : 0x7FF < v) (hv' : v ≤ 0xFFFF)
    (hvalid : v < 0xD800 ∨ 0xDFFF < v) (hb : b.toNat = v / 4096 + 0xE0)
    (hc : c.toNat = v / 64 % 64 + 0x80) (hd : d.toNat = v % 64 + 0x80) :
    String.utf8EncodeChar (Char.ofNat v) = [b, c, d] := by
  rw [String.utf8EncodeChar, toNat_ofNat (by omega), if_neg (by omega), if_neg (by omega),
    if_pos (by omega), Nat.mod_eq_of_lt (show v / 4096 < 16 by omega), byte_eq_ofNat hb,
    byte_eq_ofNat hc, byte_eq_ofNat hd]

theorem encodeChar_four {b c d e : UInt8} {v : Nat} (hv : 0xFFFF < v) (hv' : v < 0x110000)
    (hb : b.toNat = v / 262144 + 0xF0) (hc : c.toNat = v / 4096 % 64 + 0x80)
    (hd : d.toNat = v / 64 % 64 + 0x80) (he : e.toNat = v % 64 + 0x80) :
    String.utf8EncodeChar (Char.ofNat v) = [b, c, d, e] := by
  rw [String.utf8EncodeChar, toNat_ofNat (by omega), if_neg (by omega), if_neg (by omega),
    if_neg (by omega), Nat.mod_eq_of_lt (show v / 262144 < 8 by omega), byte_eq_ofNat hb,
    byte_eq_ofNat hc, byte_eq_ofNat hd, byte_eq_ofNat he]

theorem exists_of_map_cons {x : Except Fault (List Char)} {c : Char} {cs : List Char}
    (h : x.map (c :: ·) = .ok cs) : ∃ cs', x = .ok cs' ∧ cs = c :: cs' := by
  cases x with
  | error e => cases h
  | ok cs' => exact ⟨cs', rfl, (Except.ok.inj h).symm⟩

theorem next_of_decodeFrom {start value low high more used : Nat} {bytes : Bytes} {cs : List Char}
    (h : decodeFrom start (some ⟨value, low, high, more + 1, used⟩) bytes = .ok cs) :
    ∃ b rest, bytes = b :: rest ∧ low ≤ b.toNat ∧ b.toNat ≤ high ∧
      decodeFrom start (some ⟨value * 64 + (b.toNat - 0x80), 0x80, 0xBF, more, used + 1⟩) rest =
        .ok cs := by
  cases bytes with
  | nil => cases h
  | cons b rest =>
    unfold decodeFrom at h
    split at h
    next hrange => exact ⟨b, rest, rfl, hrange.1, hrange.2, h⟩
    next => cases h

theorem last_of_decodeFrom {start value low high used : Nat} {bytes : Bytes} {cs : List Char}
    (h : decodeFrom start (some ⟨value, low, high, 0, used⟩) bytes = .ok cs) :
    ∃ b rest cs', bytes = b :: rest ∧ low ≤ b.toNat ∧ b.toNat ≤ high ∧
      cs = Char.ofNat (value * 64 + (b.toNat - 0x80)) :: cs' ∧
      decodeFrom (start + used + 1) none rest = .ok cs' := by
  cases bytes with
  | nil => cases h
  | cons b rest =>
    unfold decodeFrom at h
    split at h
    next hrange =>
      obtain ⟨cs', hrest, hcs⟩ := exists_of_map_cons h
      exact ⟨b, rest, cs', rfl, hrange.1, hrange.2, hcs, hrest⟩
    next => cases h

/-- What the first byte of a character of several bytes tells about it. -/
theorem begin?_cases {n : Nat} {p : Partial} (h : begin? n = some p) :
    (0xC2 ≤ n ∧ n ≤ 0xDF ∧ p = ⟨n - 0xC0, 0x80, 0xBF, 0, 1⟩) ∨
    (∃ low high, 0xE0 ≤ n ∧ n ≤ 0xEF ∧ p = ⟨n - 0xE0, low, high, 1, 1⟩ ∧ 0x80 ≤ low ∧ high ≤ 0xBF ∧
      (n = 0xE0 → low = 0xA0) ∧ (n = 0xED → high = 0x9F)) ∨
    (∃ low high, 0xF0 ≤ n ∧ n ≤ 0xF4 ∧ p = ⟨n - 0xF0, low, high, 2, 1⟩ ∧ 0x80 ≤ low ∧ high ≤ 0xBF ∧
      (n = 0xF0 → low = 0x90) ∧ (n = 0xF4 → high = 0x8F)) := by
  unfold begin? at h
  split at h
  next hn => exact Or.inl ⟨hn.1, hn.2, (Option.some.inj h).symm⟩
  split at h
  next hn =>
    subst hn
    exact Or.inr (Or.inl ⟨_, _, by omega, by omega, (Option.some.inj h).symm, by omega, by omega,
      fun _ => rfl, by omega⟩)
  split at h
  next hn =>
    subst hn
    exact Or.inr (Or.inl ⟨_, _, by omega, by omega, (Option.some.inj h).symm, by omega, by omega,
      by omega, fun _ => rfl⟩)
  split at h
  next hn =>
    exact Or.inr (Or.inl ⟨_, _, by omega, hn.2, (Option.some.inj h).symm, by omega, by omega,
      by omega, by omega⟩)
  split at h
  next hn =>
    subst hn
    exact Or.inr (Or.inr ⟨_, _, by omega, by omega, (Option.some.inj h).symm, by omega, by omega,
      fun _ => rfl, by omega⟩)
  split at h
  next hn =>
    exact Or.inr (Or.inr ⟨_, _, by omega, by omega, (Option.some.inj h).symm, by omega, by omega,
      by omega, by omega⟩)
  split at h
  next hn =>
    subst hn
    exact Or.inr (Or.inr ⟨_, _, by omega, by omega, (Option.some.inj h).symm, by omega, by omega,
      by omega, fun _ => rfl⟩)
  cases h

/-- The bytes before the next character are those of the first one. -/
theorem encodeChar_of_decodeFrom {start : Nat} {b : UInt8} {bytes : Bytes} {cs : List Char}
    (h : decodeFrom start none (b :: bytes) = .ok cs) :
    ∃ c cs' rest next, cs = c :: cs' ∧ b :: bytes = String.utf8EncodeChar c ++ rest ∧
      decodeFrom next none rest = .ok cs' := by
  unfold decodeFrom at h
  by_cases hb : b < 0x80
  · rw [if_pos hb] at h
    obtain ⟨cs', hrest, rfl⟩ := exists_of_map_cons h
    exact ⟨_, cs', bytes, _, rfl, by rw [encodeChar_one hb, List.singleton_append], hrest⟩
  rw [if_neg hb] at h
  cases hp : begin? b.toNat with
  | none =>
    simp only [hp] at h
    cases h
  | some p =>
    simp only [hp] at h
    -- The first byte tells how many follow, and which second bytes it allows.
    rcases begin?_cases hp with ⟨hb₁, hb₂, rfl⟩ | ⟨low, high, hb₁, hb₂, rfl, hlow, hhigh, hE0, hED⟩ |
      ⟨low, high, hb₁, hb₂, rfl, hlow, hhigh, hF0, hF4⟩
    · obtain ⟨c, rest, cs', rfl, hc₁, hc₂, rfl, hrest⟩ := last_of_decodeFrom h
      refine ⟨_, cs', rest, _, rfl, ?_, hrest⟩
      rw [encodeChar_two (b := b) (c := c) (by omega) (by omega) (by omega) (by omega)]
      rfl
    · obtain ⟨c, rest, rfl, hc₁, hc₂, h⟩ := next_of_decodeFrom h
      obtain ⟨d, rest, cs', rfl, hd₁, hd₂, rfl, hrest⟩ := last_of_decodeFrom h
      refine ⟨_, cs', rest, _, rfl, ?_, hrest⟩
      rw [encodeChar_three (b := b) (c := c) (d := d) (by omega) (by omega) (by omega) (by omega)
        (by omega) (by omega)]
      rfl
    · obtain ⟨c, rest, rfl, hc₁, hc₂, h⟩ := next_of_decodeFrom h
      obtain ⟨d, rest, rfl, hd₁, hd₂, h⟩ := next_of_decodeFrom h
      obtain ⟨e, rest, cs', rfl, he₁, he₂, rfl, hrest⟩ := last_of_decodeFrom h
      refine ⟨_, cs', rest, _, rfl, ?_, hrest⟩
      rw [encodeChar_four (b := b) (c := c) (d := d) (e := e) (by omega) (by omega) (by omega)
        (by omega) (by omega) (by omega)]
      rfl

theorem flatMap_of_decodeFrom {start : Nat} {bytes : Bytes} {cs : List Char}
    (h : decodeFrom start none bytes = .ok cs) : bytes = cs.flatMap String.utf8EncodeChar := by
  induction cs generalizing start bytes with
  | nil =>
    cases bytes with
    | nil => rfl
    | cons b bytes =>
      obtain ⟨c, cs', rest, next, hcs, -⟩ := encodeChar_of_decodeFrom h
      cases hcs
  | cons c cs ih =>
    cases bytes with
    | nil => cases h
    | cons b bytes =>
      obtain ⟨c', cs', rest, next, hcs, hbytes, hrest⟩ := encodeChar_of_decodeFrom h
      obtain ⟨rfl, rfl⟩ := List.cons.inj hcs
      rw [hbytes, ih hrest, List.flatMap_cons]

theorem decode_eq_ok_iff {bytes : Bytes} {s : String} : decode bytes = .ok s ↔ bytes = encode s := by
  constructor
  · intro h
    unfold decode at h
    cases hcs : decodeFrom 0 none bytes with
    | error e =>
      rw [hcs] at h
      cases h
    | ok cs =>
      rw [hcs] at h
      obtain rfl := Except.ok.inj h
      rw [encode, String.toList_ofList]
      exact flatMap_of_decodeFrom hcs
  · intro h
    rw [h, decode_encode]

theorem encode_inj {s t : String} : encode s = encode t ↔ s = t := by
  constructor
  · intro h
    have hs := decode_encode s
    rw [h, decode_encode] at hs
    exact (Except.ok.inj hs).symm
  · rintro rfl
    rfl

theorem ofNat_cons_lt {m n : Nat} (hm : m < 256) (hn : n < 256) {l l' : Bytes}
    (h : m < n ∨ (m = n ∧ l < l')) : UInt8.ofNat m :: l < UInt8.ofNat n :: l' := by
  rw [List.cons_lt_cons_iff, UInt8.lt_iff_toNat_lt, ← UInt8.toNat_inj, toNat_ofNat_of_lt hm,
    toNat_ofNat_of_lt hn]
  exact h

section Digits

variable {m n : Nat} {rest rest' : Bytes}

theorem one_digit_lt (h : m % 64 < n % 64) :
    UInt8.ofNat (m % 64 + 0x80) :: rest < UInt8.ofNat (n % 64 + 0x80) :: rest' :=
  ofNat_cons_lt (by omega) (by omega) (Or.inl (by omega))

theorem two_digits_lt (h : m % 4096 < n % 4096) :
    UInt8.ofNat (m / 64 % 64 + 0x80) :: UInt8.ofNat (m % 64 + 0x80) :: rest <
      UInt8.ofNat (n / 64 % 64 + 0x80) :: UInt8.ofNat (n % 64 + 0x80) :: rest' := by
  have hfirst : m / 64 % 64 < n / 64 % 64 ∨ (m / 64 % 64 = n / 64 % 64 ∧ m % 64 < n % 64) := by
    omega
  refine ofNat_cons_lt (by omega) (by omega) (hfirst.imp (by omega) ?_)
  exact fun ⟨he, hlt⟩ => ⟨congrArg (· + 0x80) he, one_digit_lt hlt⟩

theorem three_digits_lt (h : m % 262144 < n % 262144) :
    UInt8.ofNat (m / 4096 % 64 + 0x80) :: UInt8.ofNat (m / 64 % 64 + 0x80) ::
        UInt8.ofNat (m % 64 + 0x80) :: rest <
      UInt8.ofNat (n / 4096 % 64 + 0x80) :: UInt8.ofNat (n / 64 % 64 + 0x80) ::
        UInt8.ofNat (n % 64 + 0x80) :: rest' := by
  have hfirst : m / 4096 % 64 < n / 4096 % 64 ∨
      (m / 4096 % 64 = n / 4096 % 64 ∧ m % 4096 < n % 4096) := by
    omega
  refine ofNat_cons_lt (by omega) (by omega) (hfirst.imp (by omega) ?_)
  exact fun ⟨he, hlt⟩ => ⟨congrArg (· + 0x80) he, two_digits_lt hlt⟩

end Digits

/-- The bytes of a character come before those of a greater one, whatever follows either. -/
theorem encodeChar_append_lt {c d : Char} (h : c < d) (rest rest' : Bytes) :
    String.utf8EncodeChar c ++ rest < String.utf8EncodeChar d ++ rest' := by
  have hlt : c.val.toNat < d.val.toNat := h
  have hbound : d.val.toNat < 0x110000 := by
    rcases d.valid with h | ⟨-, h⟩
    · exact Nat.lt_trans h (by decide)
    · exact h
  unfold String.utf8EncodeChar
  generalize c.val.toNat = m at hlt ⊢
  generalize d.val.toNat = n at hlt hbound ⊢
  simp only
  -- Of two sequences that are equally long the digits decide; otherwise the longer one has the greater
  -- first byte.
  by_cases hn₁ : n ≤ 0x7F
  · rw [if_pos hn₁, if_pos (Nat.le_trans (Nat.le_of_lt hlt) hn₁)]
    exact ofNat_cons_lt (by omega) (by omega) (Or.inl hlt)
  rw [if_neg hn₁]
  by_cases hn₂ : n ≤ 0x7FF
  · rw [if_pos hn₂]
    split
    next => exact ofNat_cons_lt (by omega) (by omega) (Or.inl (by omega))
    next =>
      rw [if_pos (Nat.le_trans (Nat.le_of_lt hlt) hn₂)]
      have hfirst : m / 64 % 32 < n / 64 % 32 ∨ (m / 64 % 32 = n / 64 % 32 ∧ m % 64 < n % 64) := by
        omega
      refine ofNat_cons_lt (by omega) (by omega) (hfirst.imp (by omega) ?_)
      exact fun ⟨he, hlt⟩ => ⟨congrArg (· + 0xC0) he, one_digit_lt hlt⟩
  rw [if_neg hn₂]
  by_cases hn₃ : n ≤ 0xFFFF
  · rw [if_pos hn₃]
    split
    next => exact ofNat_cons_lt (by omega) (by omega) (Or.inl (by omega))
    split
    next => exact ofNat_cons_lt (by omega) (by omega) (Or.inl (by omega))
    next =>
      rw [if_pos (Nat.le_trans (Nat.le_of_lt hlt) hn₃)]
      have hfirst : m / 4096 % 16 < n / 4096 % 16 ∨
          (m / 4096 % 16 = n / 4096 % 16 ∧ m % 4096 < n % 4096) := by
        omega
      refine ofNat_cons_lt (by omega) (by omega) (hfirst.imp (by omega) ?_)
      exact fun ⟨he, hlt⟩ => ⟨congrArg (· + 0xE0) he, two_digits_lt hlt⟩
  rw [if_neg hn₃]
  split
  next => exact ofNat_cons_lt (by omega) (by omega) (Or.inl (by omega))
  split
  next => exact ofNat_cons_lt (by omega) (by omega) (Or.inl (by omega))
  split
  next => exact ofNat_cons_lt (by omega) (by omega) (Or.inl (by omega))
  next =>
    have hfirst : m / 262144 % 8 < n / 262144 % 8 ∨
        (m / 262144 % 8 = n / 262144 % 8 ∧ m % 262144 < n % 262144) := by
      omega
    refine ofNat_cons_lt (by omega) (by omega) (hfirst.imp (by omega) ?_)
    exact fun ⟨he, hlt⟩ => ⟨congrArg (· + 0xF0) he, three_digits_lt hlt⟩

theorem flatMap_encodeChar_lt {cs ds : List Char} (h : cs < ds) :
    cs.flatMap String.utf8EncodeChar < ds.flatMap String.utf8EncodeChar := by
  induction h with
  | @nil d ds =>
    rw [List.flatMap_nil, List.flatMap_cons]
    cases hd : String.utf8EncodeChar d with
    | nil => exact absurd hd String.utf8EncodeChar_ne_nil
    | cons b bytes => exact List.nil_lt_cons b _
  | @rel c cs d ds h =>
    rw [List.flatMap_cons, List.flatMap_cons]
    exact encodeChar_append_lt h _ _
  | @cons c cs ds _ ih =>
    rw [List.flatMap_cons, List.flatMap_cons]
    exact List.append_left_lt ih

theorem encode_lt_iff {s t : String} : encode s < encode t ↔ s < t := by
  refine ⟨fun h => ?_, fun h => flatMap_encodeChar_lt h⟩
  apply Decidable.byContradiction
  intro hnot
  by_cases hst : t = s
  · subst hst
    exact List.lt_irrefl _ h
  · have hts : t < s := Std.lt_of_le_of_ne (String.not_lt.mp hnot) hst
    have hbytes : encode t < encode s := flatMap_encodeChar_lt hts
    exact List.lt_asymm h hbytes

end CheckpointedLog.Utf8
