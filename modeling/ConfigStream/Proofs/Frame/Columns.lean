import ConfigStream.Frame.Basic
import ConfigStream.Proofs.Word
import Mathlib.Data.List.Nodup
import Mathlib.Data.Nat.Bitwise

/-!
# What a bit of a frame does to its check

A reader of a frame compares the reserved region with the syndrome of the data bits. A bit of a
frame toggles some places of the difference (`Frame.checkPlaces`): a reserved bit the place where it
lies, a data bit the places of its odd offset in its lane. A bit toggles an odd number of places
(`Frame.odd_length_checkPlaces`), and no other bit of the frame toggles the same places
(`Frame.column_injective`).
-/

namespace ConfigStream

/-! ## Fields given by their places -/

namespace Frame

/-- The field in which the bits at the given places are set. -/
def ofPlaces (places : List Nat) : UInt64 :=
  places.foldl (fun field place => field ||| 1 <<< UInt64.ofNat place) 0

/-- The field with a single bit set. -/
theorem toNat_one_shiftLeft {place : Nat} (h : place < 64) :
    (1 <<< UInt64.ofNat place : UInt64).toNat = 2 ^ place := by
  have hpow : 2 ^ place < 2 ^ 64 := Nat.pow_lt_pow_right (by decide) h
  rw [UInt64.toNat_shiftLeft, UInt64.toNat_ofNat_of_lt' (by simp [UInt64.size]; omega),
    Nat.mod_eq_of_lt h, UInt64.toNat_one, Nat.one_shiftLeft, Nat.mod_eq_of_lt hpow]

/-- Single bits that are joined are the bits that are set. -/
theorem testBit_foldl_or {places : List Nat} (h : ∀ place ∈ places, place < 64) (field : UInt64)
    (place : Nat) :
    (places.foldl (fun field place => field ||| 1 <<< UInt64.ofNat place) field).toNat.testBit
      place = (field.toNat.testBit place || decide (place ∈ places)) := by
  induction places generalizing field with
  | nil => simp
  | cons first places ih =>
      rw [List.foldl_cons, ih fun other hother => h other (List.mem_cons_of_mem _ hother),
        UInt64.toNat_or, Nat.testBit_or, toNat_one_shiftLeft (h first List.mem_cons_self),
        Nat.testBit_two_pow, Bool.or_assoc]
      simp [eq_comm]

theorem testBit_ofPlaces {places : List Nat} (h : ∀ place ∈ places, place < 64) (place : Nat) :
    (ofPlaces places).toNat.testBit place = decide (place ∈ places) := by
  rw [ofPlaces, testBit_foldl_or h, UInt64.toNat_zero, Nat.zero_testBit, Bool.false_or]

/-- A field is moved up by moving its places. -/
theorem ofPlaces_shiftLeft {places : List Nat} {lane : Nat}
    (h : ∀ place ∈ places, place + lane < 64) (hlane : lane < 64) :
    ofPlaces places <<< UInt64.ofNat lane = ofPlaces (places.map (· + lane)) := by
  have hmoved : ∀ place ∈ places.map (· + lane), place < 64 := List.forall_mem_map.2 h
  apply UInt64.toNat_inj.1
  apply Nat.eq_of_testBit_eq
  intro place
  rw [testBit_ofPlaces hmoved, UInt64.toNat_shiftLeft,
    UInt64.toNat_ofNat_of_lt' (by simp [UInt64.size]; omega), Nat.mod_eq_of_lt hlane,
    Nat.testBit_mod_two_pow, Nat.testBit_shiftLeft,
    testBit_ofPlaces fun place hplace => Nat.lt_of_le_of_lt (Nat.le_add_right ..) (h place hplace),
    Bool.eq_iff_iff]
  simp only [Bool.and_eq_true, decide_eq_true_eq, List.mem_map]
  constructor
  · rintro ⟨-, hle, hplace⟩
    exact ⟨place - lane, hplace, Nat.sub_add_cancel hle⟩
  · rintro ⟨other, hother, rfl⟩
    rw [Nat.add_sub_cancel]
    exact ⟨h other hother, Nat.le_add_left .., hother⟩

/-! ## Counting ones -/

/-- The number of set bits of a field. -/
def ones (field : UInt64) : Nat :=
  (List.range 64).countP field.toNat.testBit

/-- Whether a difference has an odd number of set bits depends on whether the two sides have. -/
theorem ones_xor (first second : UInt64) :
    ones (first ^^^ second) % 2 = (ones first + ones second) % 2 := by
  unfold ones
  rw [UInt64.toNat_xor, ← countP_xor]
  simp only [← Nat.testBit_xor]

/-- A field has as many set bits as different places. -/
theorem ones_ofPlaces {places : List Nat} (h : ∀ place ∈ places, place < 64)
    (hnodup : places.Nodup) : ones (ofPlaces places) = places.length := by
  rw [ones, List.countP_eq_length_filter]
  apply List.Perm.length_eq
  rw [List.perm_ext_iff_of_nodup (List.nodup_range.filter _) hnodup]
  intro place
  rw [List.mem_filter, List.mem_range, testBit_ofPlaces h, decide_eq_true_iff]
  exact and_iff_right_of_imp (h place)

end Frame

/-! ## Offsets -/

namespace Syndrome

/-- The offset of a bit, made of its word and its nibble. -/
def offset (word bit : Nat) : UInt32 :=
  UInt32.ofNat ((word + offsetBase) <<< 3 ||| bit / 4)

theorem oddOffset_eq (word bit : Nat) :
    oddOffset word bit =
      if (List.range offsetBits).countP (Word.testBit (offset word bit)) % 2 = 0 then
        offset word bit ^^^ (1 <<< UInt32.ofNat offsetBits)
      else offset word bit := rfl

variable {word bit : Nat}

/-- In a frame, word and nibble have places of their own in an offset. -/
theorem toNat_offset (hword : word < Frame.wordCount) (hbit : bit < Word.width) :
    (offset word bit).toNat = (word + offsetBase) * 8 + bit / 4 := by
  have hnibble : bit / 4 < 2 ^ 3 := Nat.div_lt_of_lt_mul hbit
  have hbase : offsetBase = 163 := rfl
  have hcount : Frame.wordCount = 93 := rfl
  rw [offset, ← Nat.shiftLeft_add_eq_or_of_lt hnibble, Nat.shiftLeft_eq,
    UInt32.toNat_ofNat_of_lt' (by simp [UInt32.size]; omega)]

/-- The offset of a bit in a frame has its highest bit set, and others. -/
theorem offset_range (hword : word < Frame.wordCount) (hbit : bit < Word.width) :
    2 ^ 10 < (offset word bit).toNat ∧ (offset word bit).toNat < 2 ^ offsetBits := by
  have hnibble : bit / 4 < 8 := Nat.div_lt_of_lt_mul hbit
  have hbase : offsetBase = 163 := rfl
  have hcount : Frame.wordCount = 93 := rfl
  rw [toNat_offset hword hbit]
  show 2 ^ 10 < _ ∧ _ < 2 ^ 11
  omega

/-- The completing bit leaves the offset. -/
theorem testBit_oddOffset {place : Nat} (hplace : place < offsetBits) :
    Word.testBit (oddOffset word bit) place = Word.testBit (offset word bit) place := by
  rw [oddOffset_eq]
  split
  · rw [Word.testBit, UInt32.toNat_xor, Word.toNat_one_shiftLeft (by decide), Nat.testBit_xor,
      Nat.one_shiftLeft, Nat.testBit_two_pow_of_ne (Nat.ne_of_gt hplace), Bool.xor_false]
    rfl
  · rfl

/-- The completing bit is set if the offset has an even number of ones. -/
theorem testBit_oddOffset_completing (hword : word < Frame.wordCount) (hbit : bit < Word.width) :
    Word.testBit (oddOffset word bit) offsetBits =
      decide ((List.range offsetBits).countP (Word.testBit (offset word bit)) % 2 = 0) := by
  have hclear : Word.testBit (offset word bit) offsetBits = false :=
    Nat.testBit_lt_two_pow (offset_range hword hbit).2
  rw [oddOffset_eq]
  split
  · rename_i heven
    rw [Word.testBit, UInt32.toNat_xor, Word.toNat_one_shiftLeft (by decide), Nat.testBit_xor,
      Nat.one_shiftLeft, Nat.testBit_two_pow_self, decide_eq_true heven, Bool.xor_true,
      Bool.not_eq_true']
    exact hclear
  · rename_i hodd
    rw [hclear, decide_eq_false hodd]

/-- A completed offset has an odd number of ones. -/
theorem odd_countP_oddOffset (hword : word < Frame.wordCount) (hbit : bit < Word.width) :
    (List.range (offsetBits + 1)).countP (Word.testBit (oddOffset word bit)) % 2 = 1 := by
  have hlower : (List.range offsetBits).countP (Word.testBit (oddOffset word bit)) =
      (List.range offsetBits).countP (Word.testBit (offset word bit)) :=
    List.countP_congr fun place hplace => by rw [testBit_oddOffset (List.mem_range.1 hplace)]
  rw [List.range_succ, List.countP_append, hlower, List.countP_singleton,
    testBit_oddOffset_completing hword hbit]
  split <;> rename_i h <;> simp only [decide_eq_true_eq] at h <;> omega

/-- A spread offset has one bit in each nibble. -/
theorem spread_eq (offset : UInt32) :
    spread offset =
      Frame.ofPlaces
        (((List.range (offsetBits + 1)).filter (Word.testBit offset)).map (4 * ·)) := by
  rw [spread, Frame.ofPlaces, List.foldl_map, List.foldl_filter]

/-- The places that a data bit toggles in the syndrome. -/
def places (word bit : Nat) : List Nat :=
  ((List.range (offsetBits + 1)).filter (Word.testBit (oddOffset word bit))).map fun place =>
    4 * place + bit % 4

theorem mem_places {place : Nat} :
    place ∈ places word bit ↔
      place % 4 = bit % 4 ∧ place / 4 ≤ offsetBits ∧
        Word.testBit (oddOffset word bit) (place / 4) = true := by
  simp only [places, List.mem_map, List.mem_filter, List.mem_range]
  constructor
  · rintro ⟨nibble, ⟨hnibble, hset⟩, rfl⟩
    have hquotient : (4 * nibble + bit % 4) / 4 = nibble := by omega
    rw [hquotient]
    exact ⟨by omega, Nat.le_of_lt_succ hnibble, hset⟩
  · rintro ⟨hlane, hnibble, hset⟩
    exact ⟨place / 4, ⟨Nat.lt_succ_of_le hnibble, hset⟩, by omega⟩

/-- A nibble of the offset is told by its place in the lane of the bit. -/
theorem mem_places_nibble {nibble : Nat} (hnibble : nibble < offsetBits) :
    4 * nibble + bit % 4 ∈ places word bit ↔
      Word.testBit (offset word bit) nibble = true := by
  have hquotient : (4 * nibble + bit % 4) / 4 = nibble := by omega
  rw [mem_places, hquotient, testBit_oddOffset hnibble]
  constructor
  · exact fun h => h.2.2
  · exact fun h => ⟨by omega, Nat.le_of_lt hnibble, h⟩

/-- A data bit toggles at least two places. -/
theorem exists_mem_places_ne (hword : word < Frame.wordCount) (hbit : bit < Word.width)
    (place : Nat) : ∃ other ∈ places word bit, other ≠ place := by
  by_contra hnone
  simp only [not_exists, not_and, not_not] at hnone
  obtain ⟨habove, hbelow⟩ := offset_range hword hbit
  have hhighest : Word.testBit (offset word bit) 10 = true :=
    Nat.testBit_of_two_pow_le_and_two_pow_add_one_gt (Nat.le_of_lt habove) hbelow
  have hplace := hnone _ ((mem_places_nibble (by decide)).2 hhighest)
  -- With no other place, the offset would be its highest bit alone.
  have hoffset : (offset word bit).toNat = 2 ^ 10 := by
    apply Nat.eq_of_testBit_eq
    intro nibble
    rw [Nat.testBit_two_pow]
    by_cases hnibble : nibble < offsetBits
    · by_cases hten : 10 = nibble
      · rw [decide_eq_true hten, ← hten]
        exact hhighest
      · rw [decide_eq_false hten, ← Bool.not_eq_true]
        intro hset
        have hother := hnone _ ((mem_places_nibble hnibble).2 hset)
        omega
    · rw [decide_eq_false (by simp only [offsetBits] at hnibble; omega)]
      exact Nat.testBit_lt_two_pow
        (Nat.lt_of_lt_of_le hbelow (Nat.pow_le_pow_right (by decide) (Nat.le_of_not_lt hnibble)))
  omega

/-- The places of a data bit tell which one it is. -/
theorem places_injective {other place : Nat} (hword : word < Frame.wordCount)
    (hbit : bit < Word.width) (hother : other < Frame.wordCount) (hplace : place < Word.width)
    (h : ∀ toggled, toggled ∈ places word bit ↔ toggled ∈ places other place) :
    word = other ∧ bit = place := by
  obtain ⟨toggled, htoggled, -⟩ := exists_mem_places_ne hword hbit 0
  have hlane : bit % 4 = place % 4 :=
    (mem_places.1 htoggled).1.symm.trans (mem_places.1 ((h toggled).1 htoggled)).1
  have hoffset : (offset word bit).toNat = (offset other place).toNat := by
    apply Nat.eq_of_testBit_eq
    intro nibble
    by_cases hnibble : nibble < offsetBits
    · have hmem := h (4 * nibble + bit % 4)
      rw [mem_places_nibble hnibble, hlane, mem_places_nibble hnibble] at hmem
      exact Bool.eq_iff_iff.2 hmem
    · have hpow : 2 ^ offsetBits ≤ 2 ^ nibble :=
        Nat.pow_le_pow_right (by decide) (Nat.le_of_not_lt hnibble)
      rw [Nat.testBit_lt_two_pow (Nat.lt_of_lt_of_le (offset_range hword hbit).2 hpow),
        Nat.testBit_lt_two_pow (Nat.lt_of_lt_of_le (offset_range hother hplace).2 hpow)]
  rw [toNat_offset hword hbit, toNat_offset hother hplace] at hoffset
  simp only [Word.width] at hbit hplace
  omega

theorem ofBit_eq (word bit : Nat) : ofBit word bit = Frame.ofPlaces (places word bit) := by
  have hlane : bit % 4 < 4 := Nat.mod_lt bit (by decide)
  rw [ofBit, spread_eq, Frame.ofPlaces_shiftLeft ?_ (by omega), List.map_map]
  · rfl
  · intro place hplace
    obtain ⟨nibble, hnibble, rfl⟩ := List.mem_map.1 hplace
    have hrange := List.mem_range.1 (List.mem_filter.1 hnibble).1
    simp only [offsetBits] at hrange
    omega

end Syndrome

/-! ## Places of the bits of a frame -/

namespace Frame

/-- Where a reserved bit of a word lies in the reserved region. -/
def reservedPlace (word bit : Nat) : Nat :=
  (word - reservedWord) * Word.width + bit

/-- A reserved bit lies in the reserved region. -/
theorem reservedPlace_lt {word bit : Nat} (hbit : bit < Word.width)
    (h : isReserved word bit = true) : reservedPlace word bit < reservedWidth := by
  simp only [isReserved, Bool.or_eq_true, Bool.and_eq_true, beq_iff_eq, decide_eq_true_eq] at h
  simp only [reservedPlace, reservedWord, reservedWidth, Word.width] at h hbit ⊢
  omega

theorem reservedPlaces_lt (word : Nat) (value : UInt32) :
    ∀ place ∈ ((Word.setBits value).filter (isReserved word)).map (reservedPlace word),
      place < 64 := by
  intro place hplace
  obtain ⟨bit, hbit, rfl⟩ := List.mem_map.1 hplace
  obtain ⟨hset, hreserved⟩ := List.mem_filter.1 hbit
  exact Nat.lt_trans (reservedPlace_lt (Word.lt_width_of_mem_setBits hset) hreserved) (by decide)

/-- The low half of a word, above the places of another word. -/
theorem testBit_lowHalf (value : UInt32) (place : Nat) :
    ((value &&& 0xFFFF).toUInt64 <<< 32).toNat.testBit place = true ↔
      ∃ bit < 16, value.toNat.testBit bit = true ∧ 32 + bit = place := by
  have hmask (bit : Nat) : (0xFFFF : UInt32).toNat.testBit bit = decide (bit < 16) :=
    Nat.testBit_two_pow_sub_one 16 bit
  have hmoved : ((value &&& 0xFFFF).toUInt64 <<< 32).toNat =
      (value.toNat &&& (0xFFFF : UInt32).toNat) <<< 32 := by
    have hlt : (value.toNat &&& (0xFFFF : UInt32).toNat) < 2 ^ 16 :=
      Nat.and_lt_two_pow _ (by decide)
    rw [UInt64.toNat_shiftLeft, UInt32.toNat_toUInt64, UInt32.toNat_and]
    show _ <<< 32 % 2 ^ 64 = _
    rw [Nat.shiftLeft_eq]
    omega
  rw [hmoved, Nat.testBit_shiftLeft, Nat.testBit_and, hmask]
  simp only [Bool.and_eq_true, decide_eq_true_eq]
  constructor
  · rintro ⟨hle, hset, hbit⟩
    exact ⟨place - 32, hbit, hset, by omega⟩
  · rintro ⟨bit, hbit, hset, rfl⟩
    rw [Nat.add_sub_cancel_left]
    exact ⟨Nat.le_add_right 32 bit, hset, hbit⟩

/-- What a word holds of the reserved region is its reserved bits in their places. -/
theorem storedPart_eq (word : Nat) (value : UInt32) :
    storedPart word value =
      ofPlaces (((Word.setBits value).filter (isReserved word)).map (reservedPlace word)) := by
  apply UInt64.toNat_inj.1
  apply Nat.eq_of_testBit_eq
  intro place
  rw [testBit_ofPlaces (reservedPlaces_lt word value), Bool.eq_iff_iff, decide_eq_true_iff]
  simp only [List.mem_map, List.mem_filter, Word.mem_setBits, Word.testBit]
  unfold storedPart
  split
  · -- All of the first word is reserved.
    rename_i hword
    simp [isReserved, hword, reservedPlace]
  · rename_i hlow
    split
    · -- The low half of the second word is reserved, above the first word.
      rename_i hhigh
      have hreserved (bit : Nat) : isReserved word bit = true ↔ bit < 16 := by
        simp [isReserved, hhigh]
      have hplace (bit : Nat) : reservedPlace word bit = 32 + bit := by
        simp [reservedPlace, hhigh, Word.width]
      simp only [testBit_lowHalf, hreserved, hplace, and_assoc]
      exact exists_congr fun bit => and_left_comm
    · rename_i hhigh
      have hnone (bit : Nat) : isReserved word bit = false := by simp [isReserved, hlow, hhigh]
      simp [hnone]

/-- The places that a bit of a frame toggles in the difference of reserved region and syndrome. -/
def checkPlaces (word bit : Nat) : List Nat :=
  if isReserved word bit then [reservedPlace word bit] else Syndrome.places word bit

/-- What a bit of a frame toggles in the difference of reserved region and syndrome. -/
def column (word bit : Nat) : UInt64 :=
  ofPlaces (checkPlaces word bit)

variable {word bit : Nat}

theorem checkPlaces_lt (hbit : bit < Word.width) :
    ∀ place ∈ checkPlaces word bit, place < reservedWidth := by
  intro place hplace
  rw [checkPlaces] at hplace
  split at hplace
  · rename_i hreserved
    obtain rfl := List.mem_singleton.1 hplace
    exact reservedPlace_lt hbit hreserved
  · obtain ⟨-, hnibble, -⟩ := Syndrome.mem_places.1 hplace
    simp only [Syndrome.offsetBits, reservedWidth] at hnibble ⊢
    omega

theorem nodup_checkPlaces (word bit : Nat) : (checkPlaces word bit).Nodup := by
  rw [checkPlaces]
  split
  · exact List.nodup_singleton _
  · refine (List.nodup_range.filter _).map fun first second hsame => ?_
    have hplaces : 4 * first + bit % 4 = 4 * second + bit % 4 := hsame
    omega

/-- A bit of a frame toggles an odd number of places. -/
theorem odd_length_checkPlaces (hword : word < wordCount) (hbit : bit < Word.width) :
    (checkPlaces word bit).length % 2 = 1 := by
  rw [checkPlaces]
  split
  · rfl
  · rw [Syndrome.places, List.length_map, ← List.countP_eq_length_filter]
    exact Syndrome.odd_countP_oddOffset hword hbit

theorem testBit_column (hbit : bit < Word.width) (place : Nat) :
    (column word bit).toNat.testBit place = decide (place ∈ checkPlaces word bit) :=
  testBit_ofPlaces (fun other hother => Nat.lt_trans (checkPlaces_lt hbit other hother) (by decide))
    place

/-- What a bit of a frame toggles tells which one it is. -/
theorem column_injective {other place : Nat} (hword : word < wordCount) (hbit : bit < Word.width)
    (hother : other < wordCount) (hplace : place < Word.width)
    (h : column word bit = column other place) : word = other ∧ bit = place := by
  have hmem (toggled : Nat) :
      toggled ∈ checkPlaces word bit ↔ toggled ∈ checkPlaces other place := by
    rw [← decide_eq_decide, ← testBit_column hbit, h, testBit_column hplace]
  unfold checkPlaces at hmem
  cases hreserved : isReserved word bit <;> cases hkept : isReserved other place <;>
    simp only [hreserved, hkept, if_true, Bool.false_eq_true, if_false, List.mem_singleton] at hmem
  · exact Syndrome.places_injective hword hbit hother hplace hmem
  · obtain ⟨toggled, htoggled, hne⟩ :=
      Syndrome.exists_mem_places_ne hword hbit (reservedPlace other place)
    exact absurd ((hmem toggled).1 htoggled) hne
  · obtain ⟨toggled, htoggled, hne⟩ :=
      Syndrome.exists_mem_places_ne hother hplace (reservedPlace word bit)
    exact absurd ((hmem toggled).2 htoggled) hne
  · have hsame := (hmem _).1 rfl
    simp only [isReserved, Bool.or_eq_true, Bool.and_eq_true, beq_iff_eq, decide_eq_true_eq]
      at hreserved hkept
    simp only [reservedPlace, reservedWord, Word.width] at hsame hreserved hkept hbit hplace
    omega

theorem odd_ones_column (hword : word < wordCount) (hbit : bit < Word.width) :
    ones (column word bit) % 2 = 1 := by
  rw [column, ones_ofPlaces _ (nodup_checkPlaces word bit)]
  · exact odd_length_checkPlaces hword hbit
  · exact fun place hplace => Nat.lt_trans (checkPlaces_lt hbit place hplace) (by decide)

end Frame

end ConfigStream
