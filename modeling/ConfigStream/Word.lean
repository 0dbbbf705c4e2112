/-!
# Configuration words

A configuration stream is a sequence of 32-bit words, most significant byte first. This file holds
the two views of a word the rest of the library works with: its four bytes and its set bits.
-/

namespace ConfigStream.Word

/-- The bits in a word. -/
def width : Nat := 32

/-- Bit `bit` of a word, counted from the least significant; positions past the word are clear. -/
def testBit (word : UInt32) (bit : Nat) : Bool :=
  word.toNat.testBit bit

/-- The word with one bit given a value; only the low five bits of the position count. -/
def withBit (word : UInt32) (bit : Nat) (value : Bool) : UInt32 :=
  let mask : UInt32 := 1 <<< UInt32.ofNat bit
  if value then word ||| mask else word &&& ~~~mask

/-- The positions of the set bits, ascending. Most words of a stream are zero, and those are not
searched. -/
def setBits (word : UInt32) : List Nat :=
  if word = 0 then [] else (List.range width).filter (testBit word)

/-- The four bytes of a word in stream order. -/
def toBytes (word : UInt32) : List UInt8 :=
  [(word >>> 24).toUInt8, (word >>> 16).toUInt8, (word >>> 8).toUInt8, word.toUInt8]

/-- The word whose bytes in stream order are the four given. -/
def ofBytes (first second third fourth : UInt8) : UInt32 :=
  first.toUInt32 <<< 24 ||| second.toUInt32 <<< 16 ||| third.toUInt32 <<< 8 ||| fourth.toUInt32

/-- The word at the front of a byte sequence, if four bytes are left. -/
def first? : List UInt8 → Option UInt32
  | a :: b :: c :: d :: _ => some (ofBytes a b c d)
  | _ => none

/-! ## Bits -/

/-- Past its width a word has no set bit. -/
theorem testBit_of_width_le (word : UInt32) {bit : Nat} (h : width ≤ bit) :
    testBit word bit = false :=
  Nat.testBit_lt_two_pow
    (Nat.lt_of_lt_of_le word.toNat_lt (Nat.pow_le_pow_right (by decide) h))

/-- The listed positions are those of the set bits. -/
@[simp]
theorem mem_setBits {word : UInt32} {bit : Nat} :
    bit ∈ setBits word ↔ testBit word bit = true := by
  unfold setBits
  split
  · rename_i hzero
    simp [hzero, testBit]
  · simp only [List.mem_filter, List.mem_range, and_iff_right_iff_imp]
    intro h
    apply Nat.lt_of_not_le
    intro hle
    rw [testBit_of_width_le word hle] at h
    cases h

/-- A set bit lies in its word. -/
theorem lt_width_of_mem_setBits {word : UInt32} {bit : Nat} (h : bit ∈ setBits word) :
    bit < width := by
  apply Nat.lt_of_not_le
  intro hle
  rw [mem_setBits, testBit_of_width_le word hle] at h
  cases h

/-- The word with a single bit set. -/
theorem toNat_one_shiftLeft {bit : Nat} (h : bit < width) :
    (1 <<< UInt32.ofNat bit : UInt32).toNat = 1 <<< bit := by
  have hbit : bit < 2 ^ 32 := Nat.lt_trans h (by decide)
  have hpow : 2 ^ bit < 2 ^ 32 := Nat.pow_lt_pow_right (by decide) h
  rw [UInt32.toNat_shiftLeft, UInt32.toNat_ofNat_of_lt' hbit,
    show bit % 32 = bit from Nat.mod_eq_of_lt h, UInt32.toNat_one, Nat.one_shiftLeft,
    Nat.mod_eq_of_lt hpow]

/-- Giving a bit a value changes no other bit. -/
theorem testBit_withBit (word : UInt32) {bit : Nat} (h : bit < width) (value : Bool)
    (other : Nat) :
    testBit (withBit word bit value) other =
      if other = bit then value else testBit word other := by
  have hmask (other : Nat) :
      (1 <<< UInt32.ofNat bit : UInt32).toNat.testBit other = decide (bit = other) := by
    rw [toNat_one_shiftLeft h, Nat.one_shiftLeft, Nat.testBit_two_pow]
  cases value with
  | true =>
    simp only [withBit, if_true, testBit, UInt32.toNat_or, Nat.testBit_or, hmask]
    by_cases heq : other = bit
    · simp [heq]
    · simp [heq, Ne.symm heq]
  | false =>
    have hnot : (~~~(1 <<< UInt32.ofNat bit : UInt32)).toNat.testBit other =
        (decide (other < 32) && !decide (bit = other)) := by
      rw [UInt32.toNat_not, ← hmask other,
        ← Nat.testBit_two_pow_sub_succ (UInt32.toNat_lt _), Nat.sub_sub, Nat.add_comm 1]
    show (word &&& ~~~(1 <<< UInt32.ofNat bit)).toNat.testBit other = _
    rw [UInt32.toNat_and, Nat.testBit_and, hnot]
    by_cases heq : other = bit
    · simp [heq]
    · by_cases hother : other < 32
      · simp [heq, Ne.symm heq, hother, testBit]
      · simp [heq, hother, testBit_of_width_le word (Nat.le_of_not_lt hother)]

/-! ## Bytes -/

/-- A word has the value its bytes spell in base 256. -/
theorem toNat_ofBytes (first second third fourth : UInt8) :
    (ofBytes first second third fourth).toNat =
      first.toNat * 0x1000000 + second.toNat * 0x10000 + third.toNat * 0x100 + fourth.toNat := by
  have hfirst := first.toNat_lt
  have hsecond := second.toNat_lt
  have hthird := third.toNat_lt
  have hfourth := fourth.toNat_lt
  have hshift (byte : UInt8) (places : Nat) (h : places ≤ 24) :
      (byte.toUInt32 <<< UInt32.ofNat places).toNat = byte.toNat <<< places := by
    have hbyte := byte.toNat_lt
    have hlt : byte.toNat * 2 ^ places < 2 ^ 32 :=
      Nat.lt_of_lt_of_le (Nat.mul_lt_mul_of_pos_right hbyte (Nat.two_pow_pos _))
        (by rw [← Nat.pow_add]; exact Nat.pow_le_pow_right (by decide) (by omega))
    simp only [UInt32.toNat_shiftLeft, UInt8.toNat_toUInt32, UInt32.toNat_ofNat',
      Nat.shiftLeft_eq]
    rw [show places % 2 ^ 32 % 32 = places by omega, Nat.mod_eq_of_lt hlt]
  have htwo : first.toNat <<< 24 ||| second.toNat <<< 16 =
      (first.toNat * 2 ^ 8 + second.toNat) <<< 16 := by
    rw [← Nat.shiftLeft_add_eq_or_of_lt (by rw [Nat.shiftLeft_eq]; omega)]
    simp only [Nat.shiftLeft_eq]
    omega
  have hthree : (first.toNat * 2 ^ 8 + second.toNat) <<< 16 ||| third.toNat <<< 8 =
      (first.toNat * 2 ^ 16 + second.toNat * 2 ^ 8 + third.toNat) <<< 8 := by
    rw [← Nat.shiftLeft_add_eq_or_of_lt (by rw [Nat.shiftLeft_eq]; omega)]
    simp only [Nat.shiftLeft_eq]
    omega
  have hfour := Nat.shiftLeft_add_eq_or_of_lt hfourth
    (first.toNat * 2 ^ 16 + second.toNat * 2 ^ 8 + third.toNat)
  have hplace₁ := hshift first 24 (by omega)
  have hplace₂ := hshift second 16 (by omega)
  have hplace₃ := hshift third 8 (by omega)
  simp only [UInt32.reduceOfNat] at hplace₁ hplace₂ hplace₃
  rw [ofBytes, UInt32.toNat_or, UInt32.toNat_or, UInt32.toNat_or, hplace₁, hplace₂, hplace₃,
    UInt8.toNat_toUInt32, htwo, hthree, ← hfour, Nat.shiftLeft_eq]
  omega

@[simp]
theorem length_toBytes (word : UInt32) : (toBytes word).length = 4 := rfl

/-- Words are four times as many bytes. -/
theorem length_flatMap_toBytes (words : List UInt32) :
    (words.flatMap toBytes).length = 4 * words.length := by
  induction words with
  | nil => rfl
  | cons word words ih =>
      rw [List.flatMap_cons, List.length_append, ih, length_toBytes, List.length_cons]
      omega

/-- A word is read back from its bytes, whatever follows them. -/
@[simp]
theorem first?_toBytes_append (word : UInt32) (rest : List UInt8) :
    first? (toBytes word ++ rest) = some word := by
  simp only [toBytes, List.cons_append, List.nil_append, first?, Option.some.injEq]
  apply UInt32.toNat_inj.1
  rw [toNat_ofBytes]
  simp only [UInt32.toNat_toUInt8, UInt32.toNat_shiftRight, UInt32.reduceToNat, Nat.reduceMod,
    Nat.shiftRight_eq_div_pow]
  have := word.toNat_lt
  omega

/-- The word at the front is the one that the first four bytes make. -/
theorem first?_eq_some_iff {bytes : List UInt8} {word : UInt32} :
    first? bytes = some word ↔ ∃ first second third fourth,
      bytes.take 4 = [first, second, third, fourth] ∧ ofBytes first second third fourth = word := by
  match bytes with
  | first :: second :: third :: fourth :: rest =>
    constructor
    · intro h
      exact ⟨first, second, third, fourth, rfl, Option.some.inj h⟩
    · rintro ⟨a, b, c, d, htake, rfl⟩
      cases htake
      rfl
  | [] | [_] | [_, _] | [_, _, _] => simp [first?]

/-- There is no word at the front of fewer than four bytes. -/
theorem first?_eq_none_iff {bytes : List UInt8} : first? bytes = none ↔ bytes.length < 4 := by
  match bytes with
  | first :: second :: third :: fourth :: rest => simp [first?]
  | [] | [_] | [_, _] | [_, _, _] => simp [first?]

/-- Each byte of a word keeps its place. -/
@[simp]
theorem toBytes_ofBytes (first second third fourth : UInt8) :
    toBytes (ofBytes first second third fourth) = [first, second, third, fourth] := by
  have hfirst := first.toNat_lt
  have hsecond := second.toNat_lt
  have hthird := third.toNat_lt
  have hfourth := fourth.toNat_lt
  have h := toNat_ofBytes first second third fourth
  simp only [toBytes, List.cons.injEq, and_true]
  refine ⟨?_, ?_, ?_, ?_⟩ <;>
    · apply UInt8.toNat_inj.1
      simp only [UInt32.toNat_toUInt8, UInt32.toNat_shiftRight, UInt32.reduceToNat,
        Nat.reduceMod, Nat.shiftRight_eq_div_pow, h]
      omega

end ConfigStream.Word
