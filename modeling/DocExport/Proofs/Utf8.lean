import DocExport.Text.Utf8

/-! Decoding undoes encoding, for every text: each character is read back from its own bytes, whatever
comes behind them. -/
namespace DocExport.Text.Utf8
variable {b : UInt8} {more rest : List UInt8} {lead : Lead} {count low high n : Nat}

/-- Six bits of a character in a byte that follows its lead. -/
private def tail (bits : Nat) : UInt8 := UInt8.ofNat (bits % 64 + 128)

private theorem toNat_byte (h : n < 256) : (UInt8.ofNat n).toNat = n := by
  rw [UInt8.toNat_ofNat', Nat.mod_eq_of_lt h]

private theorem toNat_tail (bits : Nat) : (tail bits).toNat = bits % 64 + 128 := toNat_byte (by omega)

private theorem continuation_cons (hlow : low ≤ b.toNat) (hhigh : b.toNat ≤ high) :
    continuation (count + 1) low high (b :: rest) = b :: continuation count 0x80 0xBF rest := by
  rw [continuation, if_pos ⟨hlow, hhigh⟩]

private theorem continuation_tails (bits : List Nat) (rest : List UInt8) :
    continuation bits.length 0x80 0xBF (bits.map tail ++ rest) = bits.map tail := by
  induction bits with
  | nil => rw [List.length_nil, continuation, List.map_nil]
  | cons first bits ih =>
    rw [List.length_cons, List.map_cons, List.cons_append, continuation_cons, ih]
    · rw [toNat_tail]
      omega
    · rw [toNat_tail]
      omega

/-- A lead byte with all the bytes that it announces is one character. -/
private theorem decode_lead (first : Nat) (bits : List Nat) {value : Nat} (hb : 0x80 ≤ n) (hn : n < 256)
    (hlead : Lead.ofByte? n = some ⟨value, bits.length + 1, low, high⟩)
    (hlow : low ≤ first % 64 + 128) (hhigh : first % 64 + 128 ≤ high) (rest : List UInt8) :
    decode (UInt8.ofNat n :: ((first :: bits).map tail ++ rest)) =
      Char.ofNat ((first :: bits).foldl (fun value bits => 64 * value + bits % 64) value) :: decode rest := by
  have hmore : continuation (bits.length + 1) low high ((first :: bits).map tail ++ rest) = (first :: bits).map tail := by
    rw [List.map_cons, List.cons_append, continuation_cons, continuation_tails]
    · rwa [toNat_tail]
    · rwa [toNat_tail]
  have hvalue : assemble value ((first :: bits).map tail) =
      (first :: bits).foldl (fun value bits => 64 * value + bits % 64) value := by
    rw [assemble, List.foldl_map]
    simp only [toNat_tail, Nat.add_sub_cancel]
  rw [decode, toNat_byte hn, if_neg (Nat.not_lt.mpr hb)]
  simp only [hlead, hmore, hvalue, List.length_map, List.length_cons, if_true]
  rw [← List.length_cons (a := first), ← List.length_map (f := tail), List.drop_left]

/-- What announces a character of three bytes. Neither an overlong spelling nor half of a pair fits. -/
private theorem exists_lead_three (hlow : 0x7FF < n) (hhigh : n ≤ 0xFFFF) (hvalid : n < 0xD800 ∨ 0xDFFF < n) :
    ∃ low high, Lead.ofByte? (n / 4096 % 16 + 224) = some ⟨n / 4096, 2, low, high⟩ ∧
      low ≤ n / 64 % 64 + 128 ∧ n / 64 % 64 + 128 ≤ high := by
  have hsame : n / 4096 % 16 + 224 = n / 4096 + 0xE0 := by omega
  rw [hsame]
  by_cases hfirst : n / 4096 = 0
  · exact ⟨0xA0, 0xBF, by rw [hfirst]; rfl, by omega, by omega⟩
  by_cases hpair : n / 4096 = 13
  · exact ⟨0x80, 0x9F, by rw [hpair]; rfl, by omega, by omega⟩
  refine ⟨0x80, 0xBF, ?_, by omega, by omega⟩
  rw [Lead.ofByte?, if_neg (by omega), if_neg (by omega), if_neg (by omega), if_pos (by omega), Nat.add_sub_cancel]

/-- What announces a character of four bytes. -/
private theorem exists_lead_four (hlow : 0xFFFF < n) (hhigh : n < 0x110000) :
    ∃ low high, Lead.ofByte? (n / 262144 % 8 + 240) = some ⟨n / 262144, 3, low, high⟩ ∧
      low ≤ n / 4096 % 64 + 128 ∧ n / 4096 % 64 + 128 ≤ high := by
  have hsame : n / 262144 % 8 + 240 = n / 262144 + 0xF0 := by omega
  rw [hsame]
  by_cases hfirst : n / 262144 = 0
  · exact ⟨0x90, 0xBF, by rw [hfirst]; rfl, by omega, by omega⟩
  by_cases hlast : n / 262144 = 4
  · exact ⟨0x80, 0x8F, by rw [hlast]; rfl, by omega, by omega⟩
  refine ⟨0x80, 0xBF, ?_, by omega, by omega⟩
  rw [Lead.ofByte?, if_neg (by omega), if_neg (by omega), if_neg (by omega), if_neg (by omega), if_neg (by omega),
    if_pos (by omega), Nat.add_sub_cancel]

/-- A character is read back from its bytes, with any bytes behind them. -/
theorem decode_encodeChar (c : Char) (rest : List UInt8) :
    decode (String.utf8EncodeChar c ++ rest) = c :: decode rest := by
  have hvalid : c.toNat < 0xD800 ∨ 0xDFFF < c.toNat ∧ c.toNat < 0x110000 := c.valid
  have hchar : Char.ofNat c.toNat = c := Char.ofNat_toNat c
  have hval : c.val.toNat = c.toNat := rfl
  generalize c.toNat = n at hvalid hchar hval
  simp only [String.utf8EncodeChar, hval]
  split
  · rw [List.singleton_append, decode, toNat_byte (by omega), if_pos (by omega), hchar]
  split
  · have hlead : Lead.ofByte? (n / 64 % 32 + 192) = some ⟨n / 64, 1, 0x80, 0xBF⟩ := by
      have hsame : n / 64 % 32 + 192 = n / 64 + 0xC0 := by omega
      rw [hsame, Lead.ofByte?, if_pos (by omega), Nat.add_sub_cancel]
    have hread := decode_lead n [] (by omega) (by omega) hlead (by omega) (by omega) rest
    have hvalue : [n].foldl (fun value bits => 64 * value + bits % 64) (n / 64) = n := by
      simp only [List.foldl_cons, List.foldl_nil]
      omega
    rwa [hvalue, hchar] at hread
  split
  · obtain ⟨low, high, hlead, hlow, hhigh⟩ := exists_lead_three (n := n) (by omega) (by omega) (by omega)
    have hread := decode_lead (n / 64) [n] (by omega) (by omega) hlead hlow hhigh rest
    have hvalue : [n / 64, n].foldl (fun value bits => 64 * value + bits % 64) (n / 4096) = n := by
      simp only [List.foldl_cons, List.foldl_nil]
      omega
    rwa [hvalue, hchar] at hread
  · obtain ⟨low, high, hlead, hlow, hhigh⟩ := exists_lead_four (n := n) (by omega) (by omega)
    have hread := decode_lead (n / 4096) [n / 64, n] (by omega) (by omega) hlead hlow hhigh rest
    have hvalue : [n / 4096, n / 64, n].foldl (fun value bits => 64 * value + bits % 64) (n / 262144) = n := by
      simp only [List.foldl_cons, List.foldl_nil]
      omega
    rwa [hvalue, hchar] at hread

theorem encode_cons_ascii {c : Char} (h : c.toNat < 0x80) (text : List Char) :
    encode (c :: text) = UInt8.ofNat c.toNat :: encode text := by
  have hval : c.val.toNat ≤ 127 := Nat.le_of_lt_succ h
  rw [encode, List.flatMap_cons, String.utf8EncodeChar]
  simp only [if_pos hval]
  rfl

theorem decode_encode (text : List Char) : decode (encode text) = text := by
  induction text with
  | nil => rw [encode, List.flatMap_nil, decode]
  | cons c text ih =>
    rw [encode, List.flatMap_cons, decode_encodeChar]
    exact congrArg (c :: ·) ih

end DocExport.Text.Utf8
