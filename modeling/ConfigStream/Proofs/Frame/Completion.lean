import ConfigStream.Proofs.Frame.Memory
import ConfigStream.Proofs.Frame.Residue

/-!
# Frames completed by their syndrome

Completing a frame clears its reserved region, computes the syndrome of what is left and puts it
into the region. The syndrome is the exclusive or of what the data bits contribute
(`Frame.syndrome_eq_xorSum`), and only the reserved region is written, so that a completed frame is
known from its data bits (`Frame.withSyndrome_congr`) and completing it again changes nothing
(`Frame.withSyndrome_exact`).
-/

namespace ConfigStream.Frame

/-- The syndrome of a frame is what its data bits contribute. -/
theorem syndrome_eq_xorSum (frame : Frame) :
    frame.syndrome =
      xorSum (fun place => Syndrome.ofBit place.1 place.2) frame.dataBits := by
  have hwhole : frame.words.toList.take wordCount = frame.words.toList :=
    List.take_of_length_le (Nat.le_of_eq frame.words.length_toList)
  rw [dataBits, xorSum_flatMap, syndrome, Syndrome.ofWords, hwhole]
  simp only [xorSum_map]
  rfl

/-- Frames with the same bits outside the reserved region are completed alike. -/
theorem withSyndrome_congr {first second : Frame}
    (h : ∀ word < wordCount, ∀ bit < Word.width, isReserved word bit = false →
      first.get (word * Word.width + bit) = second.get (word * Word.width + bit)) :
    first.withSyndrome = second.withSyndrome := by
  have hcleared : first.withStored 0 = second.withStored 0 := by
    apply ext_get
    intro index hindex
    obtain ⟨word, bit, hword, hbit, rfl⟩ := FrameMemory.exists_place hindex
    rw [get_withStored_zero first hword hbit, get_withStored_zero second hword hbit]
    cases hreserved : isReserved word bit with
    | true => rw [Bool.not_true, Bool.and_false, Bool.and_false]
    | false => rw [h word hword bit hbit hreserved]
  rw [withSyndrome, withSyndrome, hcleared]

/-- Frames with the same data bits have the same bits outside the reserved region. -/
theorem get_eq_of_dataBits {first second : Frame} (h : first.dataBits = second.dataBits)
    {word bit : Nat} (hword : word < wordCount) (hbit : bit < Word.width)
    (hdata : isReserved word bit = false) :
    first.get (word * Word.width + bit) = second.get (word * Word.width + bit) := by
  have hmem : (word, bit) ∈ first.dataBits ↔ (word, bit) ∈ second.dataBits := by rw [h]
  rw [mem_dataBits, mem_dataBits] at hmem
  simpa only [hword, hbit, hdata, true_and, ← Bool.eq_iff_iff] using hmem

/-- Outside the frame every bit is clear. -/
theorem get_of_le {frame : Frame} {index : Nat} (h : bitCount ≤ index) :
    frame.get index = false := by
  have hword : wordCount ≤ index / Word.width :=
    (Nat.le_div_iff_mul_le (by decide)).2 h
  rw [get, Vector.getElem?_eq_none hword]

/-- The bits of a completed frame: in the reserved region, bits 1440 to 1487, those of the syndrome,
elsewhere those of the frame. -/
theorem get_withSyndrome (frame : Frame) (index : Nat) :
    frame.withSyndrome.1.get index =
      if 1440 ≤ index ∧ index < 1488 then frame.syndrome.toNat.testBit (index - 1440)
      else frame.get index := by
  by_cases hindex : index < bitCount
  · obtain ⟨word, bit, hword, hbit, rfl⟩ := FrameMemory.exists_place hindex
    have hregion : isReserved word bit = true ↔
        1440 ≤ word * Word.width + bit ∧ word * Word.width + bit < 1488 := by
      simp only [isReserved, reservedWord, Word.width, Bool.or_eq_true, Bool.and_eq_true,
        beq_iff_eq, decide_eq_true_eq] at hbit ⊢
      omega
    rw [withSyndrome, syndrome_withStored, get_withStored _ _ hword hbit,
      get_withStored_zero _ hword hbit]
    simp only [← hregion]
    cases hreserved : isReserved word bit with
    | true =>
        have hplace : (word - reservedWord) * Word.width + bit =
            word * Word.width + bit - 1440 := by
          have hlow := (hregion.1 hreserved).1
          simp only [reservedWord, Word.width] at hbit hlow ⊢
          omega
        rw [if_pos rfl, if_pos rfl, hplace]
    | false => simp
  · have houtside : ¬ (1440 ≤ index ∧ index < 1488) := by
      simp only [bitCount, wordCount, Word.width] at hindex
      omega
    rw [if_neg houtside, get_of_le (Nat.le_of_not_lt hindex), get_of_le (Nat.le_of_not_lt hindex)]

/-- A frame of any contents is completed exactly. The value told is what the region holds
afterwards, bit by bit, and the syndrome before and after, the exclusive or of what the data bits
contribute; it has 48 bits. No bit outside the region changes, completing the frame again changes
nothing, and frames with the same data bits become the same frame. -/
theorem withSyndrome_exact (frame : Frame) :
    let completed := frame.withSyndrome.1
    let value := frame.withSyndrome.2
    completed.storedSyndrome = value ∧ completed.syndrome = value ∧ frame.syndrome = value ∧
      value = xorSum (fun place => Syndrome.ofBit place.1 place.2) frame.dataBits ∧
      value.toNat < 2 ^ 48 ∧
      (∀ place < 48, completed.get (1440 + place) = value.toNat.testBit place) ∧
      (∀ index, index < 1440 ∨ 1488 ≤ index → completed.get index = frame.get index) ∧
      completed.withSyndrome = (completed, value) ∧
      ∀ other : Frame, other.dataBits = frame.dataBits → other.withSyndrome.1 = completed := by
  intro completed value
  have hvalue : value = frame.syndrome := syndrome_withStored frame 0
  refine ⟨?_, ?_, hvalue.symm, ?_, ?_, ?_, ?_, ?_, ?_⟩
  · rw [hvalue]
    exact storedSyndrome_withSyndrome frame
  · rw [hvalue]
    exact syndrome_withSyndrome frame
  · rw [hvalue]
    exact syndrome_eq_xorSum frame
  · rw [hvalue]
    exact syndrome_lt frame
  · intro place hplace
    rw [hvalue, get_withSyndrome, if_pos (by omega), Nat.add_sub_cancel_left]
  · intro index hindex
    rw [get_withSyndrome, if_neg (by omega)]
  · have hagain : completed.withSyndrome = frame.withSyndrome :=
      withSyndrome_congr fun word hword bit hbit hdata =>
        get_eq_of_dataBits (dataBits_withSyndrome frame) hword hbit hdata
    rw [hagain]
  · intro other hother
    exact congrArg Prod.fst (withSyndrome_congr fun word hword bit hbit hdata =>
      get_eq_of_dataBits hother hword hbit hdata)

/-- What was left in the reserved region before does not count: a frame with a stale bit in it
becomes the same as the frame without. -/
theorem withSyndrome_exact_stale :
    let frame := Frame.empty.set ⟨105, by decide⟩ true
    let stale := frame.set ⟨1440, by decide⟩ true
    stale ≠ frame ∧ stale.dataBits = frame.dataBits ∧
      stale.withSyndrome.1 = frame.withSyndrome.1 ∧ frame.withSyndrome.2 = 0x20200220020 ∧
      frame.withSyndrome.1.get 1445 = true := by
  intro frame stale
  have hdata : stale.dataBits = frame.dataBits := by decide +kernel
  have hvalue : frame.withSyndrome.2 = 0x20200220020 := by decide +kernel
  obtain ⟨-, -, -, -, -, hregion, -, -, hsame⟩ := withSyndrome_exact frame
  refine ⟨by decide +kernel, hdata, hsame stale hdata, hvalue, (hregion 5 (by decide)).trans ?_⟩
  rw [hvalue]
  decide

end ConfigStream.Frame
