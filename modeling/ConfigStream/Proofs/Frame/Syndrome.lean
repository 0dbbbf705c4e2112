import ConfigStream.Frame.Basic
import Mathlib.Algebra.Ring.Nat

/-!
# Frames with their syndrome

A syndrome has 48 bits (`Frame.syndrome_lt`), so the reserved region holds all of it, and it does
not depend on that region. A frame with its syndrome in place is thus one that a reader accepts:
read `Frame.storedSyndrome_withSyndrome`.
-/

namespace ConfigStream

/-! ## Width -/

namespace Syndrome

/-- An exclusive or of numbers below a power of two is below it. -/
theorem foldl_xor_lt {α : Type} {width : Nat} (f : α → UInt64)
    (h : ∀ item, (f item).toNat < 2 ^ width) (items : List α) :
    (items.foldl (fun syndrome item => syndrome ^^^ f item) 0).toNat < 2 ^ width := by
  refine List.foldlRecOn (motive := fun syndrome : UInt64 => syndrome.toNat < 2 ^ width)
    items _ (Nat.two_pow_pos width) ?_
  intro syndrome hsyndrome item _
  rw [UInt64.toNat_xor]
  exact Nat.xor_lt_two_pow hsyndrome (h item)

/-- The highest bit of a spread offset is bit 44. -/
theorem spread_lt (offset : UInt32) : (spread offset).toNat < 2 ^ 45 := by
  have hlane : ∀ bit ∈ List.range (offsetBits + 1),
      (1 <<< UInt64.ofNat (4 * bit) : UInt64).toNat < 2 ^ 45 := by decide
  refine List.foldlRecOn (motive := fun lanes : UInt64 => lanes.toNat < 2 ^ 45)
    (List.range (offsetBits + 1)) _ (Nat.two_pow_pos 45) ?_
  intro lanes hlanes bit hbit
  show (if _ then _ else _ : UInt64).toNat < _
  split
  · rw [UInt64.toNat_or]
    exact Nat.or_lt_two_pow hlanes (hlane bit hbit)
  · exact hlanes

/-- One bit contributes 48 bits. -/
theorem ofBit_lt (word bit : Nat) : (ofBit word bit).toNat < 2 ^ 48 := by
  have hspread := spread_lt (oddOffset word bit)
  have hlane : bit % 4 < 4 := Nat.mod_lt _ (by decide)
  rw [ofBit, UInt64.toNat_shiftLeft, UInt64.toNat_ofNat_of_lt' (by simp [UInt64.size]; omega),
    show bit % 4 % 64 = bit % 4 by omega, Nat.shiftLeft_eq]
  -- A bit moves its spread offset up by at most three places.
  have hpow : 2 ^ (bit % 4) ≤ 2 ^ 3 := Nat.pow_le_pow_right (by decide) (by omega)
  have hproduct := Nat.mul_lt_mul_of_lt_of_le hspread hpow (Nat.two_pow_pos 3)
  exact Nat.lt_of_le_of_lt (Nat.mod_le _ _) hproduct

theorem ofWord_lt (word : Nat) (value : UInt32) : (ofWord word value).toNat < 2 ^ 48 :=
  foldl_xor_lt (ofBit word) (ofBit_lt word) _

end Syndrome

namespace Frame

/-- The syndrome of a frame has 48 bits. -/
theorem syndrome_lt (frame : Frame) : frame.syndrome.toNat < 2 ^ 48 :=
  Syndrome.foldl_xor_lt (fun entry : UInt32 × Nat => Syndrome.ofWord entry.2 entry.1)
    (fun entry => Syndrome.ofWord_lt entry.2 entry.1) _

/-! ## Data bits

Writing to the reserved region leaves the data bits, and with them the syndrome. -/

/-- The set bits are found by searching the word. -/
theorem setBits_eq (word : UInt32) :
    Word.setBits word = (List.range Word.width).filter (Word.testBit word) := by
  unfold Word.setBits
  split
  · rename_i hzero
    subst hzero
    decide
  · rfl

/-- Outside the reserved region a word keeps its bits. -/
theorem testBit_putStoredPart (field : UInt64) {word bit : Nat} (value : UInt32)
    (hbit : bit < Word.width) (hdata : isReserved word bit = false) :
    Word.testBit (putStoredPart field word value) bit = Word.testBit value bit := by
  unfold putStoredPart
  split
  · rename_i hword
    simp [isReserved, hword] at hdata
  · split
    · rename_i hword
      have hhigh : 16 ≤ bit := by simpa [isReserved, hword, reservedWord] using hdata
      -- The high half of the word is kept, and nothing is put there.
      have hmask : ∀ bit < Word.width, 16 ≤ bit →
          (0xFFFF0000 : UInt32).toNat.testBit bit = true ∧
            (0xFFFF : UInt32).toNat.testBit bit = false := by decide
      obtain ⟨hkept, hdropped⟩ := hmask bit hbit hhigh
      rw [Word.testBit, UInt32.toNat_or, Nat.testBit_or, UInt32.toNat_and, UInt32.toNat_and,
        Nat.testBit_and, Nat.testBit_and, hkept, hdropped, Bool.and_true, Bool.and_false,
        Bool.or_false]
      rfl
    · rfl

@[simp]
theorem dataBitsOf_putStoredPart (field : UInt64) (word : Nat) (value : UInt32) :
    dataBitsOf word (putStoredPart field word value) = dataBitsOf word value := by
  rw [dataBitsOf, dataBitsOf, setBits_eq, setBits_eq, List.filter_filter, List.filter_filter]
  apply List.filter_congr
  intro bit hbit
  cases hdata : isReserved word bit with
  | true => rfl
  | false => rw [testBit_putStoredPart field value (List.mem_range.1 hbit) hdata]

/-- The words of a frame with a new reserved region, with their places. -/
theorem zipIdx_withStored (frame : Frame) (field : UInt64) :
    (frame.withStored field).words.toList.zipIdx =
      frame.words.toList.zipIdx.map fun entry =>
        (putStoredPart field entry.2 entry.1, entry.2) := by
  apply List.ext_getElem?
  intro word
  rw [withStored, Vector.toList_mapIdx]
  simp only [List.getElem?_zipIdx, List.getElem?_map, List.getElem?_mapIdx, Option.map_map]
  cases frame.words.toList[word]? with
  | none => rfl
  | some value => simp

@[simp]
theorem dataBits_withStored (frame : Frame) (field : UInt64) :
    (frame.withStored field).dataBits = frame.dataBits := by
  rw [dataBits, zipIdx_withStored, List.flatMap_map]
  simp only [dataBitsOf_putStoredPart]
  rfl

@[simp]
theorem syndrome_withStored (frame : Frame) (field : UInt64) :
    (frame.withStored field).syndrome = frame.syndrome := by
  have hwhole (words : Vector UInt32 wordCount) :
      words.toList.take wordCount = words.toList :=
    List.take_of_length_le (Nat.le_of_eq words.length_toList)
  rw [syndrome, syndrome, Syndrome.ofWords, Syndrome.ofWords, hwhole, hwhole, zipIdx_withStored,
    List.foldl_map]
  simp only [Syndrome.ofWord, dataBitsOf_putStoredPart]

/-! ## The reserved region -/

/-- Other words hold no part of the reserved region. -/
theorem foldl_storedPart {entries : List (UInt32 × Nat)}
    (h : ∀ entry ∈ entries, entry.2 ≠ reservedWord ∧ entry.2 ≠ reservedWord + 1)
    (field : UInt64) :
    entries.foldl (fun field entry => field ||| storedPart entry.2 entry.1) field = field := by
  refine List.foldlRecOn (motive := fun other => other = field) entries _ rfl ?_
  intro other hother entry hentry
  obtain ⟨hlow, hhigh⟩ := h entry hentry
  rw [hother, storedPart, if_neg hlow, if_neg hhigh, UInt64.or_zero]

/-- The reserved region is made of the parts that two words hold. -/
theorem storedSyndrome_eq (frame : Frame) :
    frame.storedSyndrome =
      storedPart reservedWord frame.words[reservedWord] |||
        storedPart (reservedWord + 1) frame.words[reservedWord + 1] := by
  obtain ⟨before, after, hbefore, hsplit⟩ : ∃ before after, before.length = reservedWord ∧
      frame.words.toList = before ++ frame.words[reservedWord] :: frame.words[reservedWord + 1] ::
        after := by
    have hlength : frame.words.toList.length = wordCount := frame.words.length_toList
    have hlow : reservedWord < frame.words.toList.length := by rw [hlength]; decide
    have hhigh : reservedWord + 1 < frame.words.toList.length := by rw [hlength]; decide
    have hsplit := (List.take_append_drop reservedWord frame.words.toList).symm
    rw [List.drop_eq_getElem_cons hlow, List.drop_eq_getElem_cons hhigh] at hsplit
    exact ⟨_, _, List.length_take_of_le (Nat.le_of_lt hlow), hsplit⟩
  -- The words before and after these two contribute nothing.
  have hfirst : ∀ entry ∈ before.zipIdx,
      entry.2 ≠ reservedWord ∧ entry.2 ≠ reservedWord + 1 := by
    intro entry hentry
    have hplace := List.snd_lt_of_mem_zipIdx hentry
    omega
  have hlast : ∀ entry ∈ after.zipIdx (0 + before.length + 1 + 1),
      entry.2 ≠ reservedWord ∧ entry.2 ≠ reservedWord + 1 := by
    intro entry hentry
    have hplace := List.le_snd_of_mem_zipIdx hentry
    omega
  rw [storedSyndrome, hsplit, List.zipIdx_append, List.zipIdx_cons, List.zipIdx_cons,
    List.foldl_append, List.foldl_cons, List.foldl_cons, foldl_storedPart hlast,
    foldl_storedPart hfirst, hbefore]
  show (0 ||| storedPart (0 + reservedWord) _) ||| storedPart (0 + reservedWord + 1) _ = _
  rw [UInt64.zero_or, Nat.zero_add]

/-- The low half of word 46 is the high part of the reserved region. -/
theorem toNat_putStoredPart_high (field : UInt64) (value : UInt32) :
    (putStoredPart field (reservedWord + 1) value &&& (0xFFFF : UInt32)).toNat =
      field.toNat / 2 ^ 32 % 2 ^ 16 := by
  have hword : putStoredPart field (reservedWord + 1) value =
      (value &&& (0xFFFF0000 : UInt32)) ||| ((field >>> 32).toUInt32 &&& (0xFFFF : UInt32)) := rfl
  have hmask : (0xFFFF : UInt32).toNat = 2 ^ 16 - 1 := rfl
  have hcleared : (value &&& (0xFFFF0000 : UInt32)).toNat % 2 ^ 16 = 0 := by
    rw [UInt32.toNat_and, Nat.and_mod_two_pow]
    exact Nat.and_zero _
  rw [hword, UInt32.toNat_and, hmask, Nat.and_two_pow_sub_one_eq_mod, UInt32.toNat_or,
    Nat.or_mod_two_pow, hcleared, Nat.zero_or, UInt32.toNat_and, hmask,
    Nat.and_two_pow_sub_one_eq_mod, Nat.mod_mod, UInt64.toNat_toUInt32, UInt64.toNat_shiftRight,
    Nat.shiftRight_eq_div_pow]
  show field.toNat / 2 ^ 32 % 2 ^ 32 % 2 ^ 16 = _
  omega

/-- The reserved region is read back. -/
theorem storedSyndrome_withStored (frame : Frame) {field : UInt64} (h : field.toNat < 2 ^ 48) :
    (frame.withStored field).storedSyndrome = field := by
  have hlow : (frame.withStored field).words[reservedWord] = field.toUInt32 := by
    simp [withStored, putStoredPart]
  have hhigh : (frame.withStored field).words[reservedWord + 1] =
      putStoredPart field (reservedWord + 1) frame.words[reservedWord + 1] := by
    simp [withStored]
  have hparts : storedPart reservedWord field.toUInt32 |||
      storedPart (reservedWord + 1)
        (putStoredPart field (reservedWord + 1) frame.words[reservedWord + 1]) =
      field.toUInt32.toUInt64 |||
        (putStoredPart field (reservedWord + 1) frame.words[reservedWord + 1] &&&
          (0xFFFF : UInt32)).toUInt64 <<< 32 := rfl
  rw [storedSyndrome_eq, hlow, hhigh, hparts]
  apply UInt64.toNat_inj.1
  rw [UInt64.or_comm, UInt64.toNat_or, UInt64.toNat_shiftLeft, UInt32.toNat_toUInt64,
    UInt32.toNat_toUInt64, toNat_putStoredPart_high, UInt64.toNat_toUInt32]
  show (field.toNat / 2 ^ 32 % 2 ^ 16) <<< 32 % 2 ^ 64 ||| field.toNat % 2 ^ 32 = field.toNat
  have hfits : (field.toNat / 2 ^ 32 % 2 ^ 16) <<< 32 % 2 ^ 64 =
      (field.toNat / 2 ^ 32 % 2 ^ 16) <<< 32 := by
    rw [Nat.shiftLeft_eq]
    omega
  rw [hfits, ← Nat.shiftLeft_add_eq_or_of_lt (Nat.mod_lt _ (by decide)), Nat.shiftLeft_eq]
  omega

/-- A frame with its syndrome passes its check. -/
theorem storedSyndrome_withSyndrome (frame : Frame) :
    frame.withSyndrome.1.storedSyndrome = frame.syndrome := by
  rw [withSyndrome, storedSyndrome_withStored _ (syndrome_lt _), syndrome_withStored]

@[simp]
theorem syndrome_withSyndrome (frame : Frame) : frame.withSyndrome.1.syndrome = frame.syndrome := by
  rw [withSyndrome, syndrome_withStored, syndrome_withStored]

@[simp]
theorem dataBits_withSyndrome (frame : Frame) : frame.withSyndrome.1.dataBits = frame.dataBits := by
  rw [withSyndrome, dataBits_withStored, dataBits_withStored]

/-! ## The empty frame -/

/-- The words of the empty frame are zero. -/
theorem zero_of_mem_empty {entry : UInt32 × Nat} (h : entry ∈ empty.words.toList.zipIdx) :
    entry.1 = 0 := by
  have hword := List.fst_mem_of_mem_zipIdx h
  rw [empty, Vector.toList_replicate] at hword
  exact List.eq_of_mem_replicate hword

@[simp]
theorem dataBits_empty : empty.dataBits = [] := by
  apply List.flatMap_eq_nil_iff.2
  intro entry hentry
  show (dataBitsOf entry.2 entry.1).map _ = []
  rw [zero_of_mem_empty hentry]
  rfl

@[simp]
theorem storedSyndrome_empty : empty.storedSyndrome = 0 := by
  refine List.foldlRecOn (motive := fun field => field = (0 : UInt64)) _ _ rfl ?_
  intro field hfield entry hentry
  show field ||| storedPart entry.2 entry.1 = 0
  rw [hfield, zero_of_mem_empty hentry, storedPart, UInt64.zero_or]
  split
  · rfl
  · split <;> rfl

@[simp]
theorem syndrome_empty : empty.syndrome = 0 := by
  have hwhole : empty.words.toList.take wordCount = empty.words.toList :=
    List.take_of_length_le (Nat.le_of_eq empty.words.length_toList)
  rw [syndrome, Syndrome.ofWords, hwhole]
  refine List.foldlRecOn (motive := fun syndrome => syndrome = (0 : UInt64)) _ _ rfl ?_
  intro syndrome hsyndrome entry hentry
  rw [hsyndrome, zero_of_mem_empty hentry, UInt64.zero_xor]
  rfl

end Frame

end ConfigStream
