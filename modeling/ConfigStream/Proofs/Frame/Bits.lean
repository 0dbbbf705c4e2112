import ConfigStream.Proofs.Frame.Syndrome
import ConfigStream.Proofs.Word

/-!
# Frames bit by bit

A frame is its bits (`Frame.ext_get`). Its data bits are the set bits outside the reserved region
(`Frame.dataBits_eq`), and a new reserved region leaves exactly these (`Frame.get_withStored`).
-/

namespace ConfigStream

namespace Frame

/-- A bit of a word of a frame has an index in the frame. -/
theorem index_lt {word bit : Nat} (hword : word < wordCount) (hbit : bit < Word.width) :
    word * Word.width + bit < bitCount := by
  simp only [bitCount, wordCount, Word.width] at hword hbit ⊢
  omega

/-- A bit of a frame is a bit of a word. -/
theorem get_eq (frame : Frame) {word bit : Nat} (hword : word < wordCount)
    (hbit : bit < Word.width) :
    frame.get (word * Word.width + bit) = Word.testBit frame.words[word] bit := by
  have hplace : (word * Word.width + bit) / Word.width = word := by
    rw [Nat.mul_comm, Nat.mul_add_div (by decide), Nat.div_eq_of_lt hbit, Nat.add_zero]
  have hrest : (word * Word.width + bit) % Word.width = bit := by
    rw [Nat.mul_comm, Nat.mul_add_mod, Nat.mod_eq_of_lt hbit]
  rw [get, hplace, hrest, Vector.getElem?_eq_getElem hword]

/-- A frame is its bits. -/
theorem ext_get {first second : Frame}
    (h : ∀ index < bitCount, first.get index = second.get index) : first = second := by
  obtain ⟨first⟩ := first
  obtain ⟨second⟩ := second
  congr 1
  apply Vector.ext
  intro word hword
  apply Word.ext_testBit
  intro bit hbit
  have hbits := h (word * Word.width + bit) (index_lt hword hbit)
  rwa [get_eq _ hword hbit, get_eq _ hword hbit] at hbits

/-- A frame with a set bit is not empty. -/
theorem isEmpty_of_get {frame : Frame} {index : Nat} (h : frame.get index = true) :
    frame.isEmpty = false := by
  unfold get at h
  split at h
  · rename_i word hword
    apply Bool.eq_false_iff.2
    intro hempty
    have hmem : word ∈ frame.words.toList :=
      Vector.mem_toList_iff.2 (Vector.mem_of_getElem? hword)
    obtain rfl : word = 0 := eq_of_beq (List.all_eq_true.1 hempty word hmem)
    rw [Word.testBit, UInt32.toNat_zero, Nat.zero_testBit] at h
    cases h
  · cases h

/-- All set bits as (word, bit), ascending. -/
def setPlaces (frame : Frame) : List (Nat × Nat) :=
  frame.words.toList.zipIdx.flatMap fun (value, word) =>
    (Word.setBits value).map fun bit => (word, bit)

/-- The data bits are the set bits outside the reserved region. -/
theorem dataBits_eq (frame : Frame) :
    frame.dataBits = frame.setPlaces.filter fun place => !isReserved place.1 place.2 := by
  rw [dataBits, setPlaces, List.filter_flatMap]
  simp only [List.filter_map, dataBitsOf]
  rfl

theorem mem_setPlaces {frame : Frame} {word bit : Nat} :
    (word, bit) ∈ frame.setPlaces ↔
      word < wordCount ∧ bit < Word.width ∧ frame.get (word * Word.width + bit) = true := by
  constructor
  · intro h
    obtain ⟨⟨value, place⟩, hentry, hbit⟩ := List.mem_flatMap.1 h
    obtain ⟨found, hset, hpair⟩ := List.mem_map.1 hbit
    obtain ⟨rfl, rfl⟩ := Prod.mk.inj hpair
    have hvalue : frame.words.toList[place]? = some value := List.mem_zipIdx_iff_getElem?.1 hentry
    obtain ⟨hplace, hvalue⟩ := List.getElem?_eq_some_iff.1 hvalue
    have hword : place < wordCount := by simpa using hplace
    have hwidth : found < Word.width := Word.lt_width_of_mem_setBits hset
    refine ⟨hword, hwidth, ?_⟩
    rw [get_eq _ hword hwidth]
    simpa [← hvalue] using hset
  · rintro ⟨hword, hbit, hset⟩
    rw [get_eq _ hword hbit] at hset
    have hentry : (frame.words[word], word) ∈ frame.words.toList.zipIdx :=
      List.mem_zipIdx_iff_getElem?.2 (by simp [hword])
    exact List.mem_flatMap.2 ⟨_, hentry, List.mem_map.2 ⟨bit, Word.mem_setBits.2 hset, rfl⟩⟩

theorem mem_dataBits {frame : Frame} {word bit : Nat} :
    (word, bit) ∈ frame.dataBits ↔ word < wordCount ∧ bit < Word.width ∧
      isReserved word bit = false ∧ frame.get (word * Word.width + bit) = true := by
  rw [dataBits_eq, List.mem_filter, mem_setPlaces, Bool.not_eq_true', and_assoc, and_assoc,
    @and_comm (frame.get _ = true)]

/-- The set bits of a frame are ascending, by their words and then by their places there. -/
theorem setPlaces_pairwise (frame : Frame) :
    frame.setPlaces.Pairwise fun first second =>
      first.1 < second.1 ∨ (first.1 = second.1 ∧ first.2 < second.2) := by
  have hwords : frame.words.toList.zipIdx.Pairwise (·.2 < ·.2) := by
    rw [← List.pairwise_map, List.zipIdx_map_snd]
    exact List.pairwise_lt_range'
  refine List.pairwise_flatMap.2 ⟨fun entry _ => ?_, hwords.imp fun {first second} hlt => ?_⟩
  · have hbits : (Word.setBits entry.1).Pairwise (· < ·) := by
      rw [setBits_eq]
      exact List.pairwise_lt_range.filter _
    exact List.pairwise_map.2 (hbits.imp fun hlt => .inr ⟨rfl, hlt⟩)
  · intro place hplace other hother
    obtain ⟨bit, -, rfl⟩ := List.mem_map.1 hplace
    obtain ⟨bit, -, rfl⟩ := List.mem_map.1 hother
    exact .inl hlt

theorem dataBits_pairwise (frame : Frame) :
    frame.dataBits.Pairwise fun first second =>
      first.1 < second.1 ∨ (first.1 = second.1 ∧ first.2 < second.2) := by
  rw [dataBits_eq]
  exact frame.setPlaces_pairwise.filter _

/-- A bit of the reserved region is the one that was put there. -/
theorem testBit_putStoredPart_reserved (field : UInt64) {word bit : Nat} (value : UInt32)
    (hbit : bit < Word.width) (hreserved : isReserved word bit = true) :
    Word.testBit (putStoredPart field word value) bit =
      field.toNat.testBit ((word - reservedWord) * Word.width + bit) := by
  unfold putStoredPart
  split
  · rename_i hword
    rw [hword, Nat.sub_self, Nat.zero_mul, Nat.zero_add, Word.testBit, UInt64.toNat_toUInt32,
      Nat.testBit_mod_two_pow, decide_eq_true (show bit < 32 from hbit), Bool.true_and]
  · rename_i hlow
    split
    · rename_i hword
      obtain ⟨-, hlower⟩ : word = reservedWord + 1 ∧ bit < 16 := by
        simpa [isReserved, hlow] using hreserved
      -- The low half of the word is put there, and nothing of the value is kept.
      have hmask : ∀ bit < 16, (0xFFFF0000 : UInt32).toNat.testBit bit = false ∧
          (0xFFFF : UInt32).toNat.testBit bit = true := by decide
      obtain ⟨hdropped, hput⟩ := hmask bit hlower
      have hhigh : (field >>> 32).toUInt32.toNat.testBit bit = field.toNat.testBit (32 + bit) := by
        rw [UInt64.toNat_toUInt32, UInt64.toNat_shiftRight, Nat.testBit_mod_two_pow,
          decide_eq_true (show bit < 32 from hbit), Bool.true_and, Nat.testBit_shiftRight]
        rfl
      rw [hword, Nat.add_sub_cancel_left, Nat.one_mul, Word.testBit, UInt32.toNat_or,
        Nat.testBit_or, UInt32.toNat_and, UInt32.toNat_and, Nat.testBit_and, Nat.testBit_and,
        hdropped, hput, Bool.and_false, Bool.false_or, Bool.and_true, hhigh]
      rfl
    · rename_i hhigh
      simp [isReserved, hlow, hhigh] at hreserved

/-- A new reserved region leaves the bits outside it. -/
theorem get_withStored (frame : Frame) (field : UInt64) {word bit : Nat} (hword : word < wordCount)
    (hbit : bit < Word.width) :
    (frame.withStored field).get (word * Word.width + bit) =
      if isReserved word bit then field.toNat.testBit ((word - reservedWord) * Word.width + bit)
      else frame.get (word * Word.width + bit) := by
  have hplaced : (frame.withStored field).words[word] =
      putStoredPart field word frame.words[word] := by simp [withStored]
  rw [get_eq _ hword hbit, get_eq _ hword hbit, hplaced]
  cases hreserved : isReserved word bit with
  | true => exact testBit_putStoredPart_reserved field _ hbit hreserved
  | false => exact testBit_putStoredPart field _ hbit hreserved

/-- Clearing the reserved region leaves the bits outside it. -/
theorem get_withStored_zero (frame : Frame) {word bit : Nat} (hword : word < wordCount)
    (hbit : bit < Word.width) :
    (frame.withStored 0).get (word * Word.width + bit) =
      (frame.get (word * Word.width + bit) && !isReserved word bit) := by
  rw [get_withStored frame 0 hword hbit]
  cases isReserved word bit <;> simp

end Frame

end ConfigStream
