import ConfigStream.Packet.Header
import ConfigStream.Proofs.Word
import Mathlib.Algebra.Ring.Nat

/-!
# Header words

The fields of a header word do not overlap, so that its value is a sum and each field can be read
back from it. A word is decoded as a type 1 or a type 2 header exactly if its value is such a sum,
whatever its reserved bits are (`decode_eq_type1_iff`, `decode_eq_type2_iff`). So a header whose
fields fit is read back from its word (`decode_encode_type1`, `decode_encode_type2`), and a word that
is decoded and encoded again loses its reserved bits and nothing else (`encode_decode`). No type 1
or type 2 header has the type bits of the sync word or of the all-ones word, at which a decoder gives
up sync (`encode_type1_ne`, `encode_type2_ne`).
-/

namespace ConfigStream.Header

/-- Fields that do not overlap are added. -/
theorem toNat_or_of_dvd {high low : UInt32} (places : Nat) (hhigh : 2 ^ places ∣ high.toNat)
    (hlow : low.toNat < 2 ^ places) : (high ||| low).toNat = high.toNat + low.toNat := by
  obtain ⟨value, hvalue⟩ := hhigh
  rw [UInt32.toNat_or, hvalue, Nat.mul_comm, ← Nat.shiftLeft_eq,
    Nat.shiftLeft_add_eq_or_of_lt hlow]

/-- A mask of ones keeps a remainder. -/
theorem toNat_and_of_ones {raw mask : UInt32} (places : Nat)
    (hmask : mask.toNat = 2 ^ places - 1) : (raw &&& mask).toNat = raw.toNat % 2 ^ places := by
  rw [UInt32.toNat_and, hmask, Nat.and_two_pow_sub_one_eq_mod]

theorem toNat_bits_lt (opcode : Opcode) : opcode.bits.toNat < 4 := by
  cases opcode <;> decide

/-- An opcode is read from the two lowest bits of a number. -/
theorem ofBits_eq_iff {bits : UInt32} {opcode : Opcode} :
    Opcode.ofBits bits = opcode ↔ bits.toNat % 4 = opcode.bits.toNat := by
  have hcode : (bits &&& 0x3).toNat = bits.toNat % 4 := toNat_and_of_ones 2 rfl
  have hof {opcode : Opcode} (h : bits.toNat % 4 = opcode.bits.toNat) :
      Opcode.ofBits bits = opcode := by
    have hsame : bits &&& 0x3 = opcode.bits := UInt32.toNat_inj.1 (hcode.trans h)
    rw [Opcode.ofBits, hsame]
    cases opcode <;> rfl
  refine ⟨?_, hof⟩
  rintro rfl
  have hall : ∀ code < 4, ∃ opcode : Opcode, code = opcode.bits.toNat
    | 0, _ => ⟨.nop, rfl⟩
    | 1, _ => ⟨.read, rfl⟩
    | 2, _ => ⟨.write, rfl⟩
    | 3, _ => ⟨.reserved, rfl⟩
  obtain ⟨opcode, hopcode⟩ := hall (bits.toNat % 4) (Nat.mod_lt _ (by decide))
  rw [hof hopcode, hopcode]

/-! ## Values -/

/-- The value of the two leading fields. -/
theorem toNat_lead (packetType : UInt32) (htype : packetType.toNat < 8) (opcode : Opcode) :
    (lead packetType opcode).toNat = packetType.toNat * 2 ^ 29 + opcode.bits.toNat * 2 ^ 27 := by
  have hbits := toNat_bits_lt opcode
  have hhigh : (packetType <<< 29).toNat = packetType.toNat * 2 ^ 29 := by
    simp only [UInt32.toNat_shiftLeft, Nat.shiftLeft_eq, UInt32.reduceToNat, Nat.reduceMod]
    omega
  have hlow : (opcode.bits <<< 27).toNat = opcode.bits.toNat * 2 ^ 27 := by
    simp only [UInt32.toNat_shiftLeft, Nat.shiftLeft_eq, UInt32.reduceToNat, Nat.reduceMod]
    omega
  rw [lead, toNat_or_of_dvd 29 (by omega) (by omega), hhigh, hlow]

/-- A count is cut to the width of its field. -/
theorem toNat_count (words limit places : Nat) (hlimit : limit = 2 ^ places - 1)
    (hplaces : places < 32) :
    (UInt32.ofNat words &&& UInt32.ofNat limit).toNat = words % 2 ^ places := by
  have hpow : 2 ^ places < 2 ^ 32 := Nat.pow_lt_pow_right (by decide) hplaces
  have hpos := Nat.two_pow_pos places
  have hmask : (UInt32.ofNat limit).toNat = 2 ^ places - 1 := by
    rw [UInt32.toNat_ofNat', hlimit]
    exact Nat.mod_eq_of_lt (by omega)
  rw [toNat_and_of_ones places hmask, UInt32.toNat_ofNat',
    Nat.mod_mod_of_dvd _ (Nat.pow_dvd_pow 2 (Nat.le_of_lt hplaces))]

/-- The value of a type 1 header. -/
theorem toNat_encode_type1 (opcode : Opcode) (register : Register) (words : Nat) :
    (encode (.type1 opcode register words)).toNat =
      2 ^ 29 + opcode.bits.toNat * 2 ^ 27 + register.raw.toNat % 2 ^ 14 * 2 ^ 13 +
        words % 2 ^ 11 := by
  have htop : (1 : UInt32).toNat * 2 ^ 29 = 2 ^ 29 := by decide
  have hlead := toNat_lead 1 (by decide) opcode
  rw [htop] at hlead
  have hmiddle : ((register.raw.toUInt32 &&& registerMask) <<< 13).toNat =
      register.raw.toNat % 2 ^ 14 * 2 ^ 13 := by
    rw [UInt32.toNat_shiftLeft, toNat_and_of_ones 14 rfl, UInt16.toNat_toUInt32, Nat.shiftLeft_eq]
    exact Nat.mod_eq_of_lt (by simp only [UInt32.reduceToNat, Nat.reduceMod]; omega)
  have hlow := toNat_count words type1Limit 11 rfl (by decide)
  have hupper : (lead 1 opcode ||| (register.raw.toUInt32 &&& registerMask) <<< 13).toNat =
      (lead 1 opcode).toNat + register.raw.toNat % 2 ^ 14 * 2 ^ 13 := by
    rw [toNat_or_of_dvd 27 (by omega) (by omega), hmiddle]
  rw [encode, toNat_or_of_dvd 11 (by omega) (by omega), hupper, hlow, hlead]

/-- The value of a type 2 header. -/
theorem toNat_encode_type2 (opcode : Opcode) (words : Nat) :
    (encode (.type2 opcode words)).toNat =
      2 ^ 30 + opcode.bits.toNat * 2 ^ 27 + words % 2 ^ 26 := by
  have htop : (2 : UInt32).toNat * 2 ^ 29 = 2 ^ 30 := by decide
  have hlead := toNat_lead 2 (by decide) opcode
  rw [htop] at hlead
  have hlow := toNat_count words type2Limit 26 rfl (by decide)
  rw [encode, toNat_or_of_dvd 26 (by omega) (by omega), hlow, hlead]

/-! ## Reading headers back -/

/-- The type of a word, from its value. -/
theorem packetType_eq_iff {raw packetType : UInt32} :
    raw >>> 29 = packetType ↔ raw.toNat / 2 ^ 29 = packetType.toNat := by
  rw [← UInt32.toNat_inj, UInt32.toNat_shiftRight, Nat.shiftRight_eq_div_pow]
  rfl

/-- The opcode of a word, from its value. -/
theorem opcode_eq_iff {raw : UInt32} {opcode : Opcode} :
    Opcode.ofBits (raw >>> 27) = opcode ↔ raw.toNat / 2 ^ 27 % 4 = opcode.bits.toNat := by
  rw [ofBits_eq_iff, UInt32.toNat_shiftRight, Nat.shiftRight_eq_div_pow]
  rfl

/-- The register of a word, from its value. -/
theorem toNat_register (raw : UInt32) :
    ((raw >>> 13) &&& registerMask).toUInt16.toNat = raw.toNat / 2 ^ 13 % 2 ^ 14 := by
  have hshift : (raw >>> 13).toNat = raw.toNat / 2 ^ 13 := by
    rw [UInt32.toNat_shiftRight, Nat.shiftRight_eq_div_pow]
    rfl
  rw [UInt32.toNat_toUInt16, toNat_and_of_ones 14 rfl, hshift]
  omega

/-- The words that are decoded as a type 1 header. Their reserved bits have any value. -/
theorem decode_eq_type1_iff {raw : UInt32} {opcode : Opcode} {register : Register} {words : Nat} :
    decode raw = .type1 opcode register words ↔
      register.raw.toNat < 2 ^ 14 ∧ words < 2 ^ 11 ∧ ∃ reserved < 2 ^ 2,
        raw.toNat = 2 ^ 29 + opcode.bits.toNat * 2 ^ 27 + register.raw.toNat * 2 ^ 13 +
          reserved * 2 ^ 11 + words := by
  have hregister := toNat_register raw
  have hwords : (raw &&& UInt32.ofNat type1Limit).toNat = raw.toNat % 2 ^ 11 :=
    toNat_and_of_ones 11 rfl
  constructor
  · intro h
    rw [decode] at h
    split at h
    · rename_i htype
      rw [packetType_eq_iff, UInt32.toNat_one] at htype
      obtain ⟨rfl, rfl, rfl⟩ := Header.type1.inj h
      have hopcode := opcode_eq_iff.1 (Eq.refl (Opcode.ofBits (raw >>> 27)))
      rw [← hopcode, hregister, hwords]
      exact ⟨by omega, by omega, raw.toNat / 2 ^ 11 % 2 ^ 2, by omega, by omega⟩
    · split at h <;> cases h
  · rintro ⟨hregisterFits, hwordsFit, reserved, hreserved, hvalue⟩
    have hbits := toNat_bits_lt opcode
    have htype : raw >>> 29 = 1 := by
      rw [packetType_eq_iff, UInt32.toNat_one]
      omega
    have hopcode : Opcode.ofBits (raw >>> 27) = opcode := by
      rw [opcode_eq_iff]
      omega
    have hname : ((raw >>> 13) &&& registerMask).toUInt16 = register.raw := by
      apply UInt16.toNat_inj.1
      omega
    have hcount : (raw &&& UInt32.ofNat type1Limit).toNat = words := by omega
    simp only [decode, htype, hopcode, hname, hcount, if_true]

/-- The words that are decoded as a type 2 header. Their reserved bit has any value. -/
theorem decode_eq_type2_iff {raw : UInt32} {opcode : Opcode} {words : Nat} :
    decode raw = .type2 opcode words ↔
      words < 2 ^ 26 ∧ ∃ reserved < 2,
        raw.toNat = 2 ^ 30 + opcode.bits.toNat * 2 ^ 27 + reserved * 2 ^ 26 + words := by
  have hwords : (raw &&& UInt32.ofNat type2Limit).toNat = raw.toNat % 2 ^ 26 :=
    toNat_and_of_ones 26 rfl
  have htwo : (2 : UInt32).toNat = 2 := rfl
  constructor
  · intro h
    rw [decode] at h
    split at h
    · cases h
    · split at h
      · rename_i htype
        rw [packetType_eq_iff, htwo] at htype
        obtain ⟨rfl, rfl⟩ := Header.type2.inj h
        have hopcode := opcode_eq_iff.1 (Eq.refl (Opcode.ofBits (raw >>> 27)))
        rw [← hopcode, hwords]
        exact ⟨by omega, raw.toNat / 2 ^ 26 % 2, by omega, by omega⟩
      · cases h
  · rintro ⟨hwordsFit, reserved, hreserved, hvalue⟩
    have hbits := toNat_bits_lt opcode
    have htype : raw >>> 29 = 2 := by
      rw [packetType_eq_iff, htwo]
      omega
    have hopcode : Opcode.ofBits (raw >>> 27) = opcode := by
      rw [opcode_eq_iff]
      omega
    have hcount : (raw &&& UInt32.ofNat type2Limit).toNat = words := by omega
    simp [decode, htype, hopcode, hcount]

/-- The fields of a type 1 header are cut to their widths when it is written. -/
theorem decode_encode_type1_cut (opcode : Opcode) (register : Register) (words : Nat) :
    decode (encode (.type1 opcode register words)) =
      .type1 opcode ⟨UInt16.ofNat (register.raw.toNat % 2 ^ 14)⟩ (words % 2 ^ 11) := by
  have hvalue := toNat_encode_type1 opcode register words
  have hfits : register.raw.toNat % 2 ^ 14 < 2 ^ 14 := by omega
  have hregister : (UInt16.ofNat (register.raw.toNat % 2 ^ 14)).toNat =
      register.raw.toNat % 2 ^ 14 := UInt16.toNat_ofNat_of_lt' (Nat.lt_trans hfits (by decide))
  rw [decode_eq_type1_iff, hregister]
  exact ⟨hfits, by omega, 0, by decide, by rw [hvalue, Nat.zero_mul, Nat.add_zero]⟩

/-- The count of a type 2 header is cut to its width when it is written. -/
theorem decode_encode_type2_cut (opcode : Opcode) (words : Nat) :
    decode (encode (.type2 opcode words)) = .type2 opcode (words % 2 ^ 26) := by
  have hvalue := toNat_encode_type2 opcode words
  have hfits : words % 2 ^ 26 < 2 ^ 26 := by omega
  exact decode_eq_type2_iff.2 ⟨hfits, 0, by decide, by rw [hvalue, Nat.zero_mul, Nat.add_zero]⟩

/-- A type 1 header whose fields fit is read back. -/
theorem decode_encode_type1 (opcode : Opcode) {register : Register} {words : Nat}
    (hregister : register.raw.toNat < 2 ^ 14) (hwords : words ≤ type1Limit) :
    decode (encode (.type1 opcode register words)) = .type1 opcode register words := by
  have hcount : words < 2 ^ 11 := Nat.lt_succ_of_le hwords
  rw [decode_encode_type1_cut, Nat.mod_eq_of_lt hregister, UInt16.ofNat_toNat,
    Nat.mod_eq_of_lt hcount]

/-- A type 2 header whose count fits is read back. -/
theorem decode_encode_type2 (opcode : Opcode) {words : Nat} (hwords : words ≤ type2Limit) :
    decode (encode (.type2 opcode words)) = .type2 opcode words := by
  have hcount : words < 2 ^ 26 := Nat.lt_succ_of_le hwords
  rw [decode_encode_type2_cut, Nat.mod_eq_of_lt hcount]

/-! ## Words that are no headers -/

/-- A type 1 header has the type bits 001. -/
theorem encode_type1_shiftRight (opcode : Opcode) (register : Register) (words : Nat) :
    encode (.type1 opcode register words) >>> 29 = 1 := by
  have hvalue := toNat_encode_type1 opcode register words
  have hbits := toNat_bits_lt opcode
  rw [packetType_eq_iff, UInt32.toNat_one]
  omega

/-- A type 2 header has the type bits 010. -/
theorem encode_type2_shiftRight (opcode : Opcode) (words : Nat) :
    encode (.type2 opcode words) >>> 29 = 2 := by
  have hvalue := toNat_encode_type2 opcode words
  have hbits := toNat_bits_lt opcode
  have htwo : (2 : UInt32).toNat = 2 := rfl
  rw [packetType_eq_iff, htwo]
  omega

/-- No type 1 header is the all-ones word or the sync word. -/
theorem encode_type1_ne (opcode : Opcode) (register : Register) (words : Nat) :
    encode (.type1 opcode register words) ≠ dummyWord ∧
      encode (.type1 opcode register words) ≠ syncWord := by
  have htype := encode_type1_shiftRight opcode register words
  have hdummy : dummyWord >>> 29 ≠ 1 := by decide
  have hsync : syncWord >>> 29 ≠ 1 := by decide
  exact ⟨fun h => hdummy (h ▸ htype), fun h => hsync (h ▸ htype)⟩

/-- No type 2 header is the all-ones word or the sync word. -/
theorem encode_type2_ne (opcode : Opcode) (words : Nat) :
    encode (.type2 opcode words) ≠ dummyWord ∧ encode (.type2 opcode words) ≠ syncWord := by
  have htype := encode_type2_shiftRight opcode words
  have hdummy : dummyWord >>> 29 ≠ 2 := by decide
  have hsync : syncWord >>> 29 ≠ 2 := by decide
  exact ⟨fun h => hdummy (h ▸ htype), fun h => hsync (h ▸ htype)⟩

/-! ## Words written again -/

/-- A word is a type 1 header, a type 2 header or no header, by its type bits. -/
theorem decode_cases (raw : UInt32) :
    (raw >>> 29 = 1 ∧ ∃ opcode register words, decode raw = .type1 opcode register words) ∨
      (raw >>> 29 = 2 ∧ ∃ opcode words, decode raw = .type2 opcode words) ∨
      (raw >>> 29 ≠ 1 ∧ raw >>> 29 ≠ 2 ∧ decode raw = .unknown (raw >>> 29).toUInt8 raw) := by
  by_cases hone : raw >>> 29 = 1
  · exact .inl ⟨hone, _, _, _, if_pos hone⟩
  · by_cases htwo : raw >>> 29 = 2
    · exact .inr (.inl ⟨htwo, _, _, (if_neg hone).trans (if_pos htwo)⟩)
    · exact .inr (.inr ⟨hone, htwo, (if_neg hone).trans (if_neg htwo)⟩)

/-- A word that is read and written again loses its reserved bits and nothing else. -/
theorem encode_decode (raw : UInt32) :
    encode (decode raw) =
      if raw >>> 29 = 1 then Word.withBit (Word.withBit raw 12 false) 11 false
      else if raw >>> 29 = 2 then Word.withBit raw 26 false
      else raw := by
  rcases decode_cases raw with ⟨htype, opcode, register, words, hdecode⟩ |
    ⟨htype, opcode, words, hdecode⟩ | ⟨hone, htwo, hdecode⟩
  · obtain ⟨hregister, hwords, reserved, hreserved, hvalue⟩ := decode_eq_type1_iff.1 hdecode
    rw [if_pos htype, ← UInt32.toNat_inj, hdecode, toNat_encode_type1,
      Word.toNat_withBit_false _ (by decide), Word.toNat_withBit_false _ (by decide)]
    omega
  · obtain ⟨hwords, reserved, hreserved, hvalue⟩ := decode_eq_type2_iff.1 hdecode
    have hother : raw >>> 29 ≠ 1 := by
      rw [htype]
      decide
    rw [if_neg hother, if_pos htype, ← UInt32.toNat_inj, hdecode, toNat_encode_type2,
      Word.toNat_withBit_false _ (by decide)]
    omega
  · rw [if_neg hone, if_neg htwo, hdecode, encode]

/-- What is read from a word is read again from the word written for it. -/
theorem decode_encode_decode (raw : UInt32) : decode (encode (decode raw)) = decode raw := by
  rcases decode_cases raw with ⟨-, opcode, register, words, hdecode⟩ |
    ⟨-, opcode, words, hdecode⟩ | ⟨-, -, hdecode⟩
  · obtain ⟨hregister, hwords, -⟩ := decode_eq_type1_iff.1 hdecode
    rw [hdecode, decode_encode_type1 opcode hregister (Nat.le_of_lt_succ hwords)]
  · obtain ⟨hwords, -⟩ := decode_eq_type2_iff.1 hdecode
    rw [hdecode, decode_encode_type2 opcode (Nat.le_of_lt_succ hwords)]
  · rw [hdecode, encode, hdecode]

/-- Words and headers stand for each other, up to the reserved bits. A word that is read as a header
is written again with these bits cleared (11 and 12 of type 1, 26 of type 2), and then read as the
same header. A header whose fields fit is read back. No type 1 or type 2 header, whatever its fields
are, is the all-ones word or the sync word. -/
theorem encode_decode_canonical (raw : UInt32) (opcode : Opcode) (register : Register)
    (words : Nat) :
    (encode (decode raw) =
        if raw >>> 29 = 1 then Word.withBit (Word.withBit raw 12 false) 11 false
        else if raw >>> 29 = 2 then Word.withBit raw 26 false
        else raw) ∧
      decode (encode (decode raw)) = decode raw ∧
      (register.raw.toNat ≤ 0x3FFF → words ≤ 0x7FF →
        decode (encode (.type1 opcode register words)) = .type1 opcode register words) ∧
      (words < 2 ^ 26 → decode (encode (.type2 opcode words)) = .type2 opcode words) ∧
      encode (.type1 opcode register words) ≠ dummyWord ∧
      encode (.type1 opcode register words) ≠ syncWord ∧
      encode (.type2 opcode words) ≠ dummyWord ∧
      encode (.type2 opcode words) ≠ syncWord := by
  obtain ⟨hdummy, hsync⟩ := encode_type1_ne opcode register words
  obtain ⟨hdummy', hsync'⟩ := encode_type2_ne opcode words
  refine ⟨encode_decode raw, decode_encode_decode raw, fun hregister hwords => ?_,
    fun hwords => ?_, hdummy, hsync, hdummy', hsync'⟩
  · exact decode_encode_type1 opcode (Nat.lt_succ_of_le hregister) hwords
  · exact decode_encode_type2 opcode (Nat.le_of_lt_succ hwords)

/-- A write of frame data with both reserved bits set, and the longest write to the last register. -/
theorem encode_decode_canonical_reserved :
    let last : Register := ⟨0x3FFF⟩
    encode (decode 0x3000585D) = 0x3000405D ∧
      decode 0x3000585D = decode 0x3000405D ∧
      (last.raw.toNat ≤ 0x3FFF ∧ 0x7FF < 2 ^ 26 ∧
        decode (encode (.type1 .write last 0x7FF)) = .type1 .write last 0x7FF ∧
        decode (encode (.type2 .write 0x7FF)) = .type2 .write 0x7FF) := by
  intro last
  obtain ⟨hwritten, hread, hshort, hlong, -⟩ :=
    encode_decode_canonical 0x3000585D .write last 0x7FF
  have hcleared : encode (decode 0x3000585D) = 0x3000405D := hwritten.trans (by decide)
  exact ⟨hcleared, by rw [← hread, hcleared], by decide, by decide, hshort (by decide) (by decide),
    hlong (by decide)⟩

end ConfigStream.Header
