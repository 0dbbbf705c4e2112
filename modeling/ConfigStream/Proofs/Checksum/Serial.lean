import ConfigStream.Proofs.Checksum.OneWord
import ConfigStream.Proofs.Word

/-!
# The check sum of a bit string

Writes extend the check sum one bit at a time (`Crc.extendAll_eq_foldl`): the bits of a word, and
then the low bits of the address it is written to (`Crc.serial`). Two bit strings of one length are
told apart by what their differences alone leave in the remainder (`Crc.foldl_feed_differences`).
Differences within 32 consecutive bits are never used up, because at most 32 bits use up no
remainder but their own (`Crc.testBit_of_foldl_feed`). An odd number of them is not used up either,
because a remainder has the parity of the bits fed to it (`Crc.ones_foldl_feed`).
-/

namespace ConfigStream.Crc

/-! ## One bit at a time -/

/-- Divide out one bit. -/
def feed (remainder : UInt32) (bit : Bool) : UInt32 :=
  shift (remainder ^^^ if bit then 1 else 0)

/-- The bits that a write of a word to an address feeds to the check sum. -/
def bitsOf (write : UInt32 × UInt32) : List Bool :=
  (List.range Word.width).map (Word.testBit write.2) ++
    (List.range addressBits).map (Word.testBit write.1)

/-- The bits that a sequence of writes feeds to the check sum. -/
def serial (writes : List (UInt32 × UInt32)) : List Bool :=
  writes.flatMap bitsOf

/-- The lowest bit of the input is fed to the remainder. -/
theorem next_feed (input : UInt64) (remainder : UInt32) :
    Division.next ⟨input, remainder.toUInt64⟩ =
      ⟨input >>> 1, (feed remainder (input.toNat.testBit 0)).toUInt64⟩ := by
  let lowest : UInt32 := if input.toNat.testBit 0 then 1 else 0
  -- The bit is used up by its like, and what is left of the remainder meets a clear bit.
  have hlowest : lowest.toUInt64.toNat.testBit 0 = input.toNat.testBit 0 ∧
      lowest.toUInt64 >>> 1 = 0 := by
    simp only [lowest]
    cases input.toNat.testBit 0 <;> decide
  have husedUp : Division.next ⟨input, lowest.toUInt64⟩ = ⟨input >>> 1, 0⟩ := by
    rw [Division.next_eq, if_pos hlowest.1.symm, UInt64.xor_zero, hlowest.2]
  have hsplit : (⟨input, remainder.toUInt64⟩ : Division) =
      Division.add ⟨input, lowest.toUInt64⟩ ⟨0, (remainder ^^^ lowest).toUInt64⟩ := by
    rw [Division.add, UInt64.xor_zero, ← UInt32.toUInt64_xor, UInt32.xor_comm remainder,
      ← UInt32.xor_assoc, UInt32.xor_self, UInt32.zero_xor]
  rw [hsplit, Division.next_add, husedUp, next_clear, Division.add, UInt64.xor_zero,
    UInt64.zero_xor]
  rfl

theorem run_eq_foldl (bits : Nat) (input : UInt64) (remainder : UInt32) :
    (Division.run bits ⟨input, remainder.toUInt64⟩).remainder =
      (((List.range bits).map input.toNat.testBit).foldl feed remainder).toUInt64 := by
  induction bits generalizing input remainder with
  | zero => rfl
  | succ bits ih =>
      have hrest : (input >>> 1).toNat.testBit = input.toNat.testBit ∘ Nat.succ := by
        funext bit
        rw [UInt64.toNat_shiftRight]
        show (input.toNat >>> 1).testBit bit = _
        rw [Nat.testBit_shiftRight, Nat.add_comm]
        rfl
      rw [Division.run, next_feed, ih, hrest, List.range_succ_eq_map, List.map_cons, List.map_map,
        List.foldl_cons]

theorem extend_eq_foldl (address data previous : UInt32) :
    extend address data previous = (bitsOf (address, data)).foldl feed previous := by
  let input : UInt64 := address.toUInt64 <<< 32 ||| data.toUInt64
  have hbit (place : Nat) : input.toNat.testBit place =
      (decide (32 ≤ place) && address.toNat.testBit (place - 32) ||
        data.toNat.testBit place) := by
    rw [UInt64.toNat_or, toNat_shiftLeft_address, UInt32.toNat_toUInt64, Nat.testBit_or,
      Nat.testBit_shiftLeft]
  have hword : (List.range Word.width).map input.toNat.testBit =
      (List.range Word.width).map (Word.testBit data) := by
    apply List.map_congr_left
    intro place hplace
    have hlow : ¬ 32 ≤ place := Nat.not_le_of_lt (List.mem_range.1 hplace)
    rw [hbit, decide_eq_false hlow, Bool.false_and, Bool.false_or]
    rfl
  have haddress : (List.range addressBits).map (input.toNat.testBit ∘ (Word.width + ·)) =
      (List.range addressBits).map (Word.testBit address) := by
    apply List.map_congr_left
    intro place _
    have hhigh : data.toNat.testBit (Word.width + place) = false :=
      Word.testBit_of_width_le data (Nat.le_add_right _ _)
    rw [Function.comp_apply, hbit, hhigh]
    simp [Word.width, Word.testBit]
  rw [extend, run_eq_foldl, UInt32.toUInt32_toUInt64, Nat.add_comm addressBits, bitsOf]
  show ((List.range (Word.width + addressBits)).map input.toNat.testBit).foldl feed previous = _
  rw [List.range_add, List.map_append, List.map_map, hword, haddress]

/-- Writes extend the check sum by their bits, one after the other. -/
theorem extendAll_eq_foldl (previous : UInt32) (writes : List (UInt32 × UInt32)) :
    extendAll previous writes = (serial writes).foldl feed previous := by
  induction writes generalizing previous with
  | nil => rfl
  | cons write writes ih =>
      rw [serial, List.flatMap_cons, List.foldl_append, ← extend_eq_foldl]
      exact ih (extend write.1 write.2 previous)

theorem length_bitsOf (write : UInt32 × UInt32) : (bitsOf write).length = 37 := rfl

theorem length_serial (writes : List (UInt32 × UInt32)) :
    (serial writes).length = 37 * writes.length := by
  rw [serial, List.length_flatMap]
  simp [length_bitsOf, Nat.mul_comm]

/-! ## What differences leave -/

theorem feed_xor (first second : UInt32) (bit other : Bool) :
    feed (first ^^^ second) (bit ^^ other) = feed first bit ^^^ feed second other := by
  have htoggle : (if (bit ^^ other) then 1 else 0 : UInt32) =
      (if bit then 1 else 0) ^^^ (if other then 1 else 0) := by
    cases bit <;> cases other <;> decide
  rw [feed, feed, feed, ← shift_linear, htoggle]
  congr 1
  ac_rfl

theorem foldl_feed_xor {first second : List Bool} (h : first.length = second.length)
    (previous before : UInt32) :
    (first.zipWith (· ^^ ·) second).foldl feed (previous ^^^ before) =
      first.foldl feed previous ^^^ second.foldl feed before := by
  induction first generalizing second previous before with
  | nil =>
      obtain rfl := List.eq_nil_of_length_eq_zero h.symm
      rfl
  | cons bit first ih =>
      obtain ⟨other, second, rfl⟩ := List.exists_cons_of_length_eq_add_one h.symm
      rw [List.zipWith_cons_cons, List.foldl_cons, feed_xor]
      exact ih (Nat.succ.inj h) _ _

/-- Whether two bit strings differ at a place. -/
def differAt (first second : List Bool) (place : Nat) : Bool :=
  first[place]? != second[place]?

/-- The places at which two bit strings of one length differ. -/
def differences (first second : List Bool) : List Nat :=
  (List.range first.length).filter (differAt first second)

theorem zipWith_xor_eq_map {first second : List Bool} (h : first.length = second.length) :
    first.zipWith (· ^^ ·) second = (List.range first.length).map (differAt first second) := by
  apply List.ext_getElem
  · simp [h]
  · intro place hplace hrange
    have hfirst : place < first.length := by simpa using hrange
    have hsecond : place < second.length := h ▸ hfirst
    simp only [List.getElem_zipWith, List.getElem_map, List.getElem_range, differAt,
      List.getElem?_eq_getElem hfirst, List.getElem?_eq_getElem hsecond]
    cases first[place] <;> cases second[place] <;> rfl

/-- Bit strings of one length that differ nowhere are the same. -/
theorem eq_of_differAt {first second : List Bool} (hlength : first.length = second.length)
    (h : ∀ place < first.length, differAt first second place = false) : first = second := by
  apply List.ext_getElem hlength
  intro place hfirst hsecond
  have hplace := h place hfirst
  rw [differAt, bne_eq_false_iff_eq, List.getElem?_eq_getElem hfirst,
    List.getElem?_eq_getElem hsecond] at hplace
  exact Option.some.inj hplace

/-- What two bit strings leave in the same remainder differs by what their differences leave. -/
theorem foldl_feed_differences {first second : List Bool} (h : first.length = second.length)
    (previous : UInt32) :
    first.foldl feed previous ^^^ second.foldl feed previous =
      ((List.range first.length).map (differAt first second)).foldl feed 0 := by
  rw [← foldl_feed_xor h, UInt32.xor_self, zipWith_xor_eq_map h]

/-! ## Differences close together -/

theorem foldl_feed_injective (bits : List Bool) : Function.Injective (bits.foldl feed) := by
  induction bits with
  | nil => exact fun _ _ hsame => hsame
  | cons bit bits ih =>
      intro first second hsame
      exact (UInt32.xor_left_inj _).1 (shift_injective (ih hsame))

/-- Clear bits leave nothing. -/
theorem foldl_feed_clear {bits : List Bool} (h : ∀ bit ∈ bits, bit = false) :
    bits.foldl feed 0 = 0 := by
  induction bits with
  | nil => rfl
  | cons bit bits ih =>
      obtain rfl := h bit List.mem_cons_self
      have hfeed : feed 0 false = 0 := shift_linear.zero
      rw [List.foldl_cons, hfeed]
      exact ih fun other hother => h other (List.mem_cons_of_mem _ hother)

/-- A bit that is fed goes to the places of the polynomial together with the lowest bit of the
remainder, and the other bits move down. -/
theorem testBit_feed (remainder : UInt32) (bit : Bool) (place : Nat) :
    (feed remainder bit).toNat.testBit place =
      (remainder.toNat.testBit (place + 1) ^^
        ((remainder.toNat.testBit 0 ^^ bit) && polynomial.toNat.testBit place)) := by
  have hbit (place : Nat) :
      (if bit then 1 else 0 : UInt32).toNat.testBit place = (decide (place = 0) && bit) := by
    cases bit with
    | false => simp
    | true => exact Nat.testBit_bool_toNat true place
  rw [feed, testBit_shift, UInt32.toNat_xor, Nat.testBit_xor, Nat.testBit_xor, hbit, hbit]
  simp

/-- A remainder is used up by at most 32 bits only if these are its own. -/
theorem testBit_of_foldl_feed {bits : List Bool} {remainder : UInt32}
    (hlength : bits.length ≤ Word.width) (hzero : bits.foldl feed remainder = 0) (place : Nat) :
    remainder.toNat.testBit place = bits.getD place false := by
  induction bits generalizing remainder place with
  | nil =>
      obtain rfl : remainder = 0 := hzero
      simp
  | cons bit bits ih =>
      have hfed (place : Nat) := ih (Nat.le_of_succ_le hlength) hzero place
      simp only [testBit_feed] at hfed
      have hlowest : remainder.toNat.testBit 0 = bit := by
        -- The highest term of the polynomial is where the lowest bit goes and no other.
        have htop : remainder.toNat.testBit 32 = false := Nat.testBit_lt_two_pow remainder.toNat_lt
        have hplace : polynomial.toNat.testBit 31 = true := by decide
        have hlast : bits.getD 31 false = false :=
          List.getD_eq_default _ _ (Nat.le_of_lt_succ hlength)
        have htopFed := hfed 31
        rw [htop, hplace, hlast] at htopFed
        simpa using htopFed
      cases place with
      | zero => exact hlowest
      | succ place => simpa [hlowest] using hfed place

/-- Bits that leave nothing are clear if clear ones follow and precede at most 32 of them. -/
theorem eq_false_of_foldl_feed {early middle late : List Bool}
    (hearly : ∀ bit ∈ early, bit = false) (hlate : ∀ bit ∈ late, bit = false)
    (hmiddle : middle.length ≤ Word.width) (hzero : (early ++ middle ++ late).foldl feed 0 = 0) :
    ∀ bit ∈ early ++ middle ++ late, bit = false := by
  rw [List.foldl_append, List.foldl_append, foldl_feed_clear hearly] at hzero
  have hnothing : middle.foldl feed 0 = 0 :=
    foldl_feed_injective late (hzero.trans (foldl_feed_clear hlate).symm)
  intro bit hbit
  rcases List.mem_append.1 hbit with hbit | hbit
  · rcases List.mem_append.1 hbit with hbit | hbit
    · exact hearly bit hbit
    · obtain ⟨place, hplace, rfl⟩ := List.mem_iff_getElem.1 hbit
      have hown := testBit_of_foldl_feed hmiddle hnothing place
      rw [UInt32.toNat_zero, Nat.zero_testBit, List.getD_eq_getElem _ _ hplace] at hown
      exact hown.symm
  · exact hlate bit hbit

/-- Bits that leave nothing are clear if the set ones lie within 32 consecutive places. -/
theorem eq_false_of_burst {bits : List Bool} (start : Nat)
    (hburst : ∀ (place : Nat) (hplace : place < bits.length), bits[place] = true →
      start ≤ place ∧ place < start + Word.width)
    (hzero : bits.foldl feed 0 = 0) : ∀ bit ∈ bits, bit = false := by
  have houtside {place : Nat} (hplace : place < bits.length)
      (h : place < start ∨ start + Word.width ≤ place) : bits[place] = false := by
    apply Bool.eq_false_of_not_eq_true
    intro hset
    have := hburst place hplace hset
    omega
  have hearly : ∀ bit ∈ bits.take start, bit = false := by
    intro bit hbit
    obtain ⟨place, hplace, rfl⟩ := List.mem_take_iff_getElem.1 hbit
    obtain ⟨hstart, hplace⟩ := Nat.lt_min.1 hplace
    exact houtside hplace (.inl hstart)
  have hlate : ∀ bit ∈ bits.drop (start + Word.width), bit = false := by
    intro bit hbit
    obtain ⟨place, hplace, rfl⟩ := List.mem_drop_iff_getElem.1 hbit
    exact houtside _ (.inr (Nat.le_add_right _ _))
  have hsplit : bits.take start ++ (bits.drop start).take Word.width ++
      bits.drop (start + Word.width) = bits := by
    rw [List.append_assoc, ← List.drop_drop, List.take_append_drop, List.take_append_drop]
  rw [← hsplit] at hzero ⊢
  exact eq_false_of_foldl_feed hearly hlate (List.length_take_le _ _) hzero

/-! ## An odd number of differences -/

/-- The set bits of a remainder. -/
def ones (remainder : UInt32) : Nat :=
  (List.range Word.width).countP (Word.testBit remainder)

theorem ones_xor (first second : UInt32) :
    ones (first ^^^ second) % 2 = (ones first + ones second) % 2 := by
  simp only [ones, ← countP_xor, ← Word.testBit_xor]

/-- Dividing out a clear bit keeps the parity, since the polynomial has an odd number of terms below
the highest. -/
theorem ones_shift (remainder : UInt32) : ones (shift remainder) % 2 = ones remainder % 2 := by
  let lowest := Word.testBit remainder 0
  have hcarried : (List.range Word.width).countP
      (fun bit => lowest && polynomial.toNat.testBit bit) % 2 = lowest.toNat := by
    cases lowest <;> decide
  -- The lowest bit and those above it are all bits, and there is none past the word.
  have hmoved : lowest.toNat +
      (List.range Word.width).countP (fun bit => remainder.toNat.testBit (bit + 1)) =
        ones remainder := by
    have hlast : Word.testBit remainder Word.width = false :=
      Word.testBit_of_width_le remainder (Nat.le_refl _)
    have hall : (List.range (Word.width + 1)).countP (Word.testBit remainder) =
        ones remainder := by
      rw [List.range_succ, List.countP_append, List.countP_singleton, hlast]
      rfl
    rw [← hall, List.range_succ_eq_map, List.countP_cons, List.countP_map, Nat.add_comm]
    simp [lowest, Bool.toNat, Bool.cond_eq_ite]
    rfl
  have hshift : ones (shift remainder) = (List.range Word.width).countP fun bit =>
      remainder.toNat.testBit (bit + 1) ^^ (lowest && polynomial.toNat.testBit bit) := by
    rw [ones]
    congr 1
    funext bit
    exact testBit_shift remainder bit
  rw [hshift, countP_xor]
  omega

theorem ones_feed (remainder : UInt32) (bit : Bool) :
    ones (feed remainder bit) % 2 = (ones remainder + bit.toNat) % 2 := by
  have hbit : ones (if bit then 1 else 0) = bit.toNat := by cases bit <;> decide
  rw [feed, ones_shift, ones_xor, hbit]

/-- The parity of a remainder is that of the set bits fed to it. -/
theorem ones_foldl_feed (bits : List Bool) (remainder : UInt32) :
    ones (bits.foldl feed remainder) % 2 = (ones remainder + bits.countP id) % 2 := by
  induction bits generalizing remainder with
  | nil => rfl
  | cons bit bits ih =>
      rw [List.foldl_cons, ih, List.countP_cons]
      have hfeed := ones_feed remainder bit
      cases bit <;> simp at hfeed ⊢ <;> omega

/-- Bits that leave nothing have an even number of set ones. -/
theorem even_of_foldl_feed {bits : List Bool} (hzero : bits.foldl feed 0 = 0) :
    bits.countP id % 2 = 0 := by
  have hparity := ones_foldl_feed bits 0
  rw [hzero] at hparity
  have hnone : ones 0 = 0 := by decide
  omega

/-! ## Writes -/

/-- Two sequences of equally many writes that differ in the bits they feed to the check sum give
different check sums, if the places at which they differ lie within 32 consecutive bits or are odd
in number. -/
theorem extendAll_differences_ne (previous : UInt32) {first second : List (UInt32 × UInt32)}
    (hlength : first.length = second.length) (hne : serial first ≠ serial second)
    (h : (∃ start, ∀ place ∈ differences (serial first) (serial second),
        start ≤ place ∧ place < start + 32) ∨
      (differences (serial first) (serial second)).length % 2 = 1) :
    extendAll previous first ≠ extendAll previous second := by
  intro hsame
  have hserial : (serial first).length = (serial second).length := by
    rw [length_serial, length_serial, hlength]
  -- What the differences leave would have to be nothing.
  have hzero := foldl_feed_differences hserial previous
  rw [← extendAll_eq_foldl, ← extendAll_eq_foldl, hsame, UInt32.xor_self] at hzero
  rcases h with ⟨start, hburst⟩ | hodd
  · have hclear := eq_false_of_burst start (fun place hplace hset => ?_) hzero.symm
    · refine hne (eq_of_differAt hserial fun place hplace => ?_)
      exact hclear _ (List.mem_map_of_mem (List.mem_range.2 hplace))
    · have hrange : place < (serial first).length := by simpa using hplace
      rw [List.getElem_map, List.getElem_range] at hset
      exact hburst place (List.mem_filter.2 ⟨List.mem_range.2 hrange, hset⟩)
  · have heven := even_of_foldl_feed hzero.symm
    rw [List.countP_map, Function.id_comp, List.countP_eq_length_filter] at heven
    exact absurd (heven.symm.trans hodd) (by decide)

/-- The last bit of a word, the address it is written to and the first two bits of the next word
change together. -/
theorem extendAll_differences_ne_across :
    let first : List (UInt32 × UInt32) := [(2, 0), (2, 0)]
    let second : List (UInt32 × UInt32) := [(29, 0x80000000), (2, 3)]
    differences (serial first) (serial second) = [31, 32, 33, 34, 35, 36, 37, 38] ∧
      ∀ previous, extendAll previous first ≠ extendAll previous second := by
  intro first second
  have hplaces : differences (serial first) (serial second) =
      [31, 32, 33, 34, 35, 36, 37, 38] := by decide
  refine ⟨hplaces, fun previous => ?_⟩
  refine extendAll_differences_ne previous rfl (by decide) (.inl ⟨31, ?_⟩)
  rw [hplaces]
  decide

end ConfigStream.Crc
