import ConfigStream.Checksum.Crc
import ConfigStream.Word
import Mathlib.Data.Nat.Bitwise
import Mathlib.Dynamics.PeriodicPts.Defs
import Mathlib.NumberTheory.LucasLehmer

/-!
# What the check sum tells apart

The transport check sum is linear in exclusive or (`Crc.extend_xor`), so two sums of the same data
under two addresses differ by what the difference of the addresses alone would give. Only the low
five bits of an address matter (`Crc.extend_address`). If two addresses differ in them, the sums of
the same words differ however many words there are, as long as there are fewer than `2 ^ 31 - 1`
(`Crc.extendAll_address_ne`): dividing out a clear bit is a permutation of the remainders of order
`2 ^ 31 - 1`, a prime, and no number of words below that comes back to the start.
-/

namespace ConfigStream.Crc

/-! ## Exclusive or -/

namespace Division

/-- The exclusive or of two divisions. -/
def add (first second : Division) : Division :=
  ⟨first.input ^^^ second.input, first.remainder ^^^ second.remainder⟩

/-- The polynomial is subtracted when input and remainder disagree in their lowest bit. -/
theorem next_eq (division : Division) :
    division.next =
      ⟨division.input >>> 1,
        (division.remainder ^^^
          if division.input.toNat.testBit 0 = division.remainder.toNat.testBit 0 then (0 : UInt64)
          else polynomial.toUInt64 <<< 1) >>> 1⟩ := by
  have hlowest (value : UInt64) : (value &&& 1).toNat = (value.toNat.testBit 0).toNat := by
    rw [UInt64.toNat_and, Nat.testBit_zero]
    show value.toNat &&& 1 = _
    rw [Nat.and_one_is_mod]
    rcases Nat.mod_two_eq_zero_or_one value.toNat with h | h <;> simp [h]
  have hagree : division.input &&& 1 = division.remainder &&& 1 ↔
      division.input.toNat.testBit 0 = division.remainder.toNat.testBit 0 := by
    rw [← UInt64.toNat_inj, hlowest, hlowest]
    cases division.input.toNat.testBit 0 <;> cases division.remainder.toNat.testBit 0 <;> decide
  unfold next
  by_cases h : division.input.toNat.testBit 0 = division.remainder.toNat.testBit 0
  · rw [if_pos (hagree.2 h), if_pos h, UInt64.xor_zero]
  · rw [if_neg (mt hagree.1 h), if_neg h]

theorem next_add (first second : Division) :
    (first.add second).next = first.next.add second.next := by
  obtain ⟨input, remainder⟩ := first
  obtain ⟨other, rest⟩ := second
  have htoggle (a b c d : Bool) (factor : UInt64) :
      (if (a ^^ c) = (b ^^ d) then 0 else factor) =
        (if a = b then 0 else factor) ^^^ (if c = d then 0 else factor) := by
    cases a <;> cases b <;> cases c <;> cases d <;> simp
  simp only [next_eq, add, UInt64.toNat_xor, Nat.testBit_xor, htoggle, UInt64.shiftRight_xor]
  congr 1
  ac_rfl

theorem run_add (bits : Nat) (first second : Division) :
    (first.add second).run bits = (first.run bits).add (second.run bits) := by
  induction bits generalizing first second with
  | zero => rfl
  | succ bits ih => rw [run, next_add, ih, run, run]

end Division

/-- The address bits come after the bits of a word. -/
theorem toNat_shiftLeft_address (address : UInt32) :
    (address.toUInt64 <<< 32).toNat = address.toNat <<< 32 := by
  have := address.toNat_lt
  rw [UInt64.toNat_shiftLeft, UInt32.toNat_toUInt64]
  show address.toNat <<< 32 % 2 ^ 64 = _
  rw [Nat.shiftLeft_eq]
  omega

/-- The input bits of a word and an address do not overlap. -/
theorem input_eq (address data : UInt32) :
    address.toUInt64 <<< 32 ||| data.toUInt64 = address.toUInt64 <<< 32 ^^^ data.toUInt64 := by
  apply UInt64.toNat_inj.1
  apply Nat.eq_of_testBit_eq
  intro bit
  rw [UInt64.toNat_or, UInt64.toNat_xor, Nat.testBit_or, Nat.testBit_xor,
    toNat_shiftLeft_address, Nat.testBit_shiftLeft, UInt32.toNat_toUInt64]
  by_cases hbit : 32 ≤ bit
  · have hdata : data.toNat.testBit bit = false :=
      Nat.testBit_lt_two_pow
        (Nat.lt_of_lt_of_le data.toNat_lt (Nat.pow_le_pow_right (by decide) hbit))
    simp [hdata]
  · simp [hbit]

/-- The check sum is linear. -/
theorem extend_xor (address other data rest previous before : UInt32) :
    extend (address ^^^ other) (data ^^^ rest) (previous ^^^ before) =
      extend address data previous ^^^ extend other rest before := by
  have hswap (a b c d : UInt64) : (a ^^^ b) ^^^ (c ^^^ d) = (a ^^^ c) ^^^ (b ^^^ d) := by ac_rfl
  have hinput : (address ^^^ other).toUInt64 <<< 32 ||| (data ^^^ rest).toUInt64 =
      (address.toUInt64 <<< 32 ||| data.toUInt64) ^^^
        (other.toUInt64 <<< 32 ||| rest.toUInt64) := by
    rw [input_eq, input_eq, input_eq, UInt32.toUInt64_xor, UInt32.toUInt64_xor,
      UInt64.shiftLeft_xor, hswap]
  have hrun := Division.run_add (addressBits + 32)
    ⟨address.toUInt64 <<< 32 ||| data.toUInt64, previous.toUInt64⟩
    ⟨other.toUInt64 <<< 32 ||| rest.toUInt64, before.toUInt64⟩
  rw [extend, extend, extend, hinput, UInt32.toUInt64_xor, ← UInt64.toUInt32_xor]
  exact congrArg (fun division => division.remainder.toUInt32) hrun

/-! ## Addresses -/

/-- Clear bits leave the remainder zero. -/
theorem Division.run_clear {bits : Nat} {input : UInt64} (h : input.toNat % 2 ^ bits = 0) :
    (Division.run bits ⟨input, 0⟩).remainder = 0 := by
  induction bits generalizing input with
  | zero => rfl
  | succ bits ih =>
      obtain ⟨factor, hfactor⟩ := Nat.dvd_of_mod_eq_zero h
      have hhalf : input.toNat / 2 = 2 ^ bits * factor := by
        rw [hfactor, Nat.pow_succ, Nat.mul_assoc, Nat.mul_left_comm,
          Nat.mul_div_cancel_left _ (by decide)]
      have hlowest : input.toNat.testBit 0 = false := by
        rw [Nat.testBit_zero, hfactor, Nat.pow_succ, Nat.mul_assoc, Nat.mul_left_comm]
        simp
      have hnext : (⟨input, 0⟩ : Division).next = ⟨input >>> 1, 0⟩ := by
        simp [next_eq, hlowest]
      rw [run, hnext]
      apply ih
      rw [UInt64.toNat_shiftRight]
      show input.toNat >>> 1 % _ = 0
      rw [Nat.shiftRight_one, hhalf, Nat.mul_mod_right]

/-- Only the low bits of an address take part. -/
theorem extend_address {address other : UInt32}
    (h : address.toNat % 2 ^ addressBits = other.toNat % 2 ^ addressBits)
    (data previous : UInt32) :
    extend address data previous = extend other data previous := by
  have hlow : (address ^^^ other).toNat % 2 ^ addressBits = 0 := by
    rw [UInt32.toNat_xor, Nat.xor_mod_two_pow, h, Nat.xor_self]
  have hclear : extend (address ^^^ other) 0 0 = 0 := by
    have hinput : ((address ^^^ other).toUInt64 <<< 32 ||| (0 : UInt32).toUInt64).toNat %
        2 ^ (addressBits + 32) = 0 := by
      rw [UInt64.toNat_or, toNat_shiftLeft_address]
      show ((address ^^^ other).toNat <<< 32 ||| 0) % 2 ^ 37 = 0
      rw [Nat.or_zero, Nat.shiftLeft_eq]
      simp only [addressBits] at hlow
      omega
    exact congrArg UInt64.toUInt32 (Division.run_clear hinput)
  have hsame := extend_xor address other data data previous previous
  rw [UInt32.xor_self, UInt32.xor_self, hclear] at hsame
  exact UInt32.xor_eq_zero_iff.1 hsame.symm

theorem extendAll_address {address other : UInt32}
    (h : address.toNat % 2 ^ addressBits = other.toNat % 2 ^ addressBits) (previous : UInt32)
    (words : List UInt32) :
    extendAll previous (words.map fun word => (address, word)) =
      extendAll previous (words.map fun word => (other, word)) := by
  induction words generalizing previous with
  | nil => rfl
  | cons word words ih =>
      have hrest := ih (extend other word previous)
      rw [← extend_address h] at hrest
      exact hrest.trans (by rw [extend_address h]; rfl)

/-! ## Dividing out clear bits -/

/-- Divide out one clear bit. -/
def shift (remainder : UInt32) : UInt32 :=
  (Division.next ⟨0, remainder.toUInt64⟩).remainder.toUInt32

/-- The remainder stays a word. -/
theorem next_clear (remainder : UInt32) :
    Division.next ⟨0, remainder.toUInt64⟩ = ⟨0, (shift remainder).toUInt64⟩ := by
  have hlt : (Division.next ⟨0, remainder.toUInt64⟩).remainder.toNat < 2 ^ 32 := by
    have hword : remainder.toUInt64.toNat < 2 ^ 33 := by
      have := remainder.toNat_lt
      rw [UInt32.toNat_toUInt64]
      omega
    have hfactor (same : Prop) [Decidable same] :
        (if same then 0 else polynomial.toUInt64 <<< 1 : UInt64).toNat < 2 ^ 33 := by
      split <;> decide
    rw [Division.next_eq, UInt64.toNat_shiftRight, UInt64.toNat_xor]
    show (_ ^^^ _) >>> 1 < _
    rw [Nat.shiftRight_one]
    exact Nat.div_lt_of_lt_mul (Nat.xor_lt_two_pow hword (hfactor _))
  have hinput : (Division.next ⟨0, remainder.toUInt64⟩).input = 0 := UInt64.zero_shiftRight
  have hremainder : (shift remainder).toUInt64 =
      (Division.next ⟨0, remainder.toUInt64⟩).remainder := by
    apply UInt64.toNat_inj.1
    rw [UInt32.toNat_toUInt64, shift, UInt64.toNat_toUInt32, Nat.mod_eq_of_lt hlt]
  rw [hremainder]
  exact congrArg (fun input => (⟨input, _⟩ : Division)) hinput

theorem run_clear_input (bits : Nat) (remainder : UInt32) :
    Division.run bits ⟨0, remainder.toUInt64⟩ = ⟨0, (shift^[bits] remainder).toUInt64⟩ := by
  induction bits generalizing remainder with
  | zero => rfl
  | succ bits ih => rw [Division.run, next_clear, ih, Function.iterate_succ_apply]

/-- A zero word to address zero shifts the check sum by its bits. -/
theorem extend_zero (previous : UInt32) :
    extend 0 0 previous = shift^[addressBits + 32] previous := by
  have hrun := run_clear_input (addressBits + 32) previous
  have hextend : extend 0 0 previous =
      (Division.run (addressBits + 32) ⟨0, previous.toUInt64⟩).remainder.toUInt32 := rfl
  rw [hextend, hrun, UInt32.toUInt32_toUInt64]

/-- A map of words that keeps exclusive or. -/
def IsLinear (map : UInt32 → UInt32) : Prop :=
  ∀ first second, map (first ^^^ second) = map first ^^^ map second

theorem shift_linear : IsLinear shift := by
  intro first second
  have hnext := Division.next_add ⟨0, first.toUInt64⟩ ⟨0, second.toUInt64⟩
  rw [Division.add, UInt64.xor_self, ← UInt32.toUInt64_xor] at hnext
  rw [shift, hnext, shift, shift, ← UInt64.toUInt32_xor]
  rfl

namespace IsLinear

variable {map : UInt32 → UInt32}

theorem zero (h : IsLinear map) : map 0 = 0 := by
  have hzero := h 0 0
  rwa [UInt32.xor_self, UInt32.xor_self] at hzero

theorem iterate (h : IsLinear map) (count : Nat) : IsLinear map^[count] := by
  induction count with
  | zero => exact fun _ _ => rfl
  | succ count ih =>
      intro first second
      rw [Function.iterate_succ_apply, h, ih, Function.iterate_succ_apply,
        Function.iterate_succ_apply]

end IsLinear

/-- The values of a map at the words with a single bit. -/
def imagesOf (map : UInt32 → UInt32) : List UInt32 :=
  (List.range Word.width).map fun bit => map (1 <<< UInt32.ofNat bit)

/-- The linear map with the given values at the words with a single bit. -/
def ofImages (images : List UInt32) (word : UInt32) : UInt32 :=
  (List.range Word.width).foldl
    (fun sum bit => if Word.testBit word bit then sum ^^^ images.getD bit 0 else sum) 0

/-- Without its highest bit a word has only lower ones. -/
theorem toNat_lt_of_clear {word : UInt32} {bits : Nat} (hword : word.toNat < 2 ^ (bits + 1))
    (hclear : Word.testBit word bits = false) : word.toNat < 2 ^ bits := by
  apply Nat.lt_pow_two_of_testBit
  intro place hplace
  rcases Nat.eq_or_lt_of_le hplace with rfl | hhigher
  · exact hclear
  · exact Nat.testBit_lt_two_pow
      (Nat.lt_of_lt_of_le hword (Nat.pow_le_pow_right (by decide) hhigher))

/-- The sum of the values of a linear map over the lowest bits is its value at a word that has no
others. -/
theorem foldl_lowest {map : UInt32 → UInt32} (h : IsLinear map) {bits : Nat}
    (hbits : bits ≤ Word.width) {word : UInt32} (hword : word.toNat < 2 ^ bits) :
    (List.range bits).foldl
      (fun sum bit => if Word.testBit word bit then sum ^^^ map (1 <<< UInt32.ofNat bit) else sum)
      0 = map word := by
  induction bits generalizing word with
  | zero =>
      obtain rfl : word = 0 := UInt32.toNat_inj.1 (Nat.lt_one_iff.1 hword)
      exact h.zero.symm
  | succ bits ih =>
      have hwidth : bits < Word.width := hbits
      rw [List.range_succ, List.foldl_append, List.foldl_cons, List.foldl_nil]
      cases hset : Word.testBit word bits with
      | false => exact ih hwidth.le (toNat_lt_of_clear hword hset)
      | true =>
          -- The highest bit is taken off, and the sum over the others is the value at the rest.
          let rest : UInt32 := word ^^^ 1 <<< UInt32.ofNat bits
          have hbit (bit : Nat) : Word.testBit rest bit =
              (Word.testBit word bit ^^ decide (bits = bit)) := by
            rw [Word.testBit, UInt32.toNat_xor, Nat.testBit_xor, Word.toNat_one_shiftLeft hwidth,
              Nat.one_shiftLeft, Nat.testBit_two_pow]
            rfl
          have hrest : rest.toNat < 2 ^ bits := by
            refine toNat_lt_of_clear ?_ (by simp [hbit, hset])
            rw [UInt32.toNat_xor, Word.toNat_one_shiftLeft hwidth, Nat.one_shiftLeft]
            exact Nat.xor_lt_two_pow hword (Nat.pow_lt_pow_right (by decide) (Nat.lt_succ_self _))
          have hsum : (List.range bits).foldl (fun sum bit =>
              if Word.testBit word bit then sum ^^^ map (1 <<< UInt32.ofNat bit) else sum) 0 =
                map rest := by
            rw [← ih hwidth.le hrest]
            apply List.foldl_ext
            intro sum bit hlower
            have hne : bits ≠ bit := Nat.ne_of_gt (List.mem_range.1 hlower)
            simp [hbit, hne]
          have hword : word = rest ^^^ 1 <<< UInt32.ofNat bits := by
            rw [UInt32.xor_assoc, UInt32.xor_self, UInt32.xor_zero]
          rw [if_pos rfl, hsum, ← h, ← hword]

/-- A linear map is known from its values at the words with a single bit. -/
theorem ofImages_imagesOf {map : UInt32 → UInt32} (h : IsLinear map) (word : UInt32) :
    ofImages (imagesOf map) word = map word := by
  rw [← foldl_lowest h (Nat.le_refl Word.width) word.toNat_lt]
  apply List.foldl_ext
  intro sum bit hbit
  rw [imagesOf, List.getD_eq_getElem?_getD, List.getElem?_map,
    List.getElem?_range (List.mem_range.1 hbit)]
  rfl

/-- The values of a linear map done twice. -/
theorem map_ofImages {map : UInt32 → UInt32} (h : IsLinear map) (count : Nat) :
    (fun images => images.map (ofImages images))^[count] (imagesOf map) =
      imagesOf map^[2 ^ count] := by
  induction count with
  | zero => rfl
  | succ count ih =>
      have htwice : map^[2 ^ (count + 1)] = map^[2 ^ count] ∘ map^[2 ^ count] := by
        rw [Nat.pow_succ, Nat.mul_two, Function.iterate_add]
      rw [Function.iterate_succ_apply', ih, htwice]
      simp only [imagesOf, List.map_map]
      apply List.map_congr_left
      intro bit _
      exact ofImages_imagesOf (h.iterate _) _

/-- After `2 ^ 31` clear bits a remainder is where it was after one. -/
theorem shift_order (remainder : UInt32) : shift^[2 ^ 31] remainder = shift remainder := by
  have himages : imagesOf shift^[2 ^ 31] = imagesOf shift := by
    rw [← map_ofImages shift_linear]
    decide +kernel
  rw [← ofImages_imagesOf (shift_linear.iterate _), himages, ofImages_imagesOf shift_linear]

/-! ## Words under two addresses -/

/-- Check sums of the same words under two addresses differ by what the words add to the difference
at the start. -/
theorem extendAll_xor (address other previous before : UInt32) (words : List UInt32) :
    extendAll previous (words.map fun word => (address, word)) ^^^
        extendAll before (words.map fun word => (other, word)) =
      (extend (address ^^^ other) 0)^[words.length] (previous ^^^ before) := by
  induction words generalizing previous before with
  | nil => rfl
  | cons word words ih =>
      have hword := extend_xor address other word word previous before
      rw [UInt32.xor_self] at hword
      rw [List.length_cons, Function.iterate_succ_apply, hword]
      exact ih (extend address word previous) (extend other word before)

/-- One more word moves the difference by what an address adds, shifted by all words before. -/
theorem iterate_extend_xor (address : UInt32) (count : Nat) :
    (extend address 0)^[count + 1] 0 ^^^ (extend address 0)^[count] 0 =
      shift^[(addressBits + 32) * count] (extend address 0 0) := by
  induction count with
  | zero => exact UInt32.xor_zero
  | succ count ih =>
      have hword := extend_xor address address 0 0 ((extend address 0)^[count + 1] 0)
        ((extend address 0)^[count] 0)
      rw [UInt32.xor_self, UInt32.xor_self, ih, extend_zero] at hword
      rw [Nat.mul_succ, Nat.add_comm (_ * count), Function.iterate_add_apply shift, hword]
      exact congrArg₂ (· ^^^ ·) (Function.iterate_succ_apply' (extend address 0) (count + 1) 0)
        (Function.iterate_succ_apply' (extend address 0) count 0)

/-- What an address with a low bit adds is moved by every shift. -/
theorem shift_extend_ne {address : UInt32} (h : address.toNat % 2 ^ addressBits ≠ 0) :
    shift (shift (extend address 0 0)) ≠ shift (extend address 0 0) := by
  have hlow : ∀ low < 2 ^ addressBits, low ≠ 0 →
      shift (shift (extend (UInt32.ofNat low) 0 0)) ≠ shift (extend (UInt32.ofNat low) 0 0) := by
    decide +kernel
  have haddress : address.toNat % 2 ^ addressBits =
      (UInt32.ofNat (address.toNat % 2 ^ addressBits)).toNat % 2 ^ addressBits := by
    have hlt : address.toNat % 2 ^ addressBits < 2 ^ addressBits := Nat.mod_lt _ (by decide)
    rw [UInt32.toNat_ofNat_of_lt' (Nat.lt_trans hlt (by decide)), Nat.mod_mod]
  rw [extend_address haddress]
  exact hlow _ (Nat.mod_lt _ (by decide)) h

/-- The same words under two addresses that differ in their low bits give different check sums, if
there are fewer than `2 ^ 31 - 1`. -/
theorem extendAll_address_ne {address other : UInt32}
    (h : address.toNat % 2 ^ addressBits ≠ other.toNat % 2 ^ addressBits) (previous : UInt32)
    {words : List UInt32} (hwords : words ≠ []) (hlength : words.length < mersenne 31) :
    extendAll previous (words.map fun word => (address, word)) ≠
      extendAll previous (words.map fun word => (other, word)) := by
  intro hsame
  let start := shift (extend (address ^^^ other) 0 0)
  have hlow : (address ^^^ other).toNat % 2 ^ addressBits ≠ 0 := by
    rw [UInt32.toNat_xor, Nat.xor_mod_two_pow]
    exact fun hzero => h (Nat.eq_of_xor_eq_zero hzero)
  have hmoves : ¬ Function.IsFixedPt shift start := shift_extend_ne hlow
  -- The difference comes back to zero, so the shift by all words leaves what the address adds.
  have hback : Function.IsPeriodicPt shift ((addressBits + 32) * words.length) start := by
    have hzero := extendAll_xor address other previous previous words
    rw [hsame, UInt32.xor_self, UInt32.xor_self] at hzero
    have hshift := iterate_extend_xor (address ^^^ other) words.length
    rw [Function.iterate_succ_apply', ← hzero, UInt32.xor_zero] at hshift
    exact (Function.Commute.iterate_self shift _ _).trans (congrArg shift hshift.symm)
  have hmersenne : Function.IsPeriodicPt shift (mersenne 31) start := by
    have horder := shift_order (extend (address ^^^ other) 0 0)
    rwa [← succ_mersenne, Function.iterate_succ_apply] at horder
  have hprime : (mersenne 31).Prime := lucas_lehmer_sufficiency _ (by norm_num) (by norm_num)
  rcases (Nat.dvd_prime hprime).1 hmersenne.minimalPeriod_dvd with hone | hwhole
  · exact hmoves (Function.minimalPeriod_eq_one_iff_isFixedPt.1 hone)
  · have hdvd : mersenne 31 ∣ (addressBits + 32) * words.length :=
      hwhole ▸ hback.minimalPeriod_dvd
    have hcoprime : (mersenne 31).Coprime (addressBits + 32) := by norm_num [mersenne, addressBits]
    have hle := Nat.le_of_dvd (List.length_pos_of_ne_nil hwords)
      (hcoprime.dvd_of_dvd_mul_left hdvd)
    omega

end ConfigStream.Crc
