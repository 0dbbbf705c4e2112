import ConfigStream.Proofs.Checksum.Serial
import Mathlib.Algebra.CharP.Two
import Mathlib.Algebra.Polynomial.Div
import Mathlib.Data.ZMod.Basic
import Mathlib.Tactic.LinearCombination

/-!
# The check sum as a remainder of polynomials

Bits are the coefficients of a polynomial over the field of two elements, the first bit that of the
highest power (`Crc.polynomialOf`). A word that holds a remainder has its highest power in the lowest
bit (`Crc.reflected`). To feed a bit is one step of long division by the Castagnoli polynomial
(`Crc.reflected_feed`), so the check sum of a sequence of writes is what is left of their bits,
32 powers up, when it is divided out (`Crc.extendAll_eq_remainder`).
-/

namespace ConfigStream.Crc

open Polynomial

/-! ## Bits as coefficients -/

/-- The polynomial whose coefficients are the given bits, from the highest power down. -/
noncomputable def polynomialOf : List Bool → (ZMod 2)[X]
  | [] => 0
  | bit :: bits => monomial bits.length (bit.toNat : ZMod 2) + polynomialOf bits

/-- The bits of a word, the lowest first. -/
def wordBits (word : UInt32) : List Bool := (List.range Word.width).map (Word.testBit word)

/-- The polynomial that a word stands for if its lowest bit is the coefficient of the highest
power. -/
noncomputable def reflected (word : UInt32) : (ZMod 2)[X] := polynomialOf (wordBits word)

/-- The Castagnoli polynomial. Its terms below the highest are the bits of a word, the highest bit
first. -/
noncomputable def castagnoli : (ZMod 2)[X] :=
  X ^ 32 + polynomialOf (wordBits 0x1EDC6F41).reverse

theorem coeff_polynomialOf (bits : List Bool) (power : Nat) :
    (polynomialOf bits).coeff power = ((bits.reverse.getD power false).toNat : ZMod 2) := by
  induction bits with
  | nil => simp [polynomialOf]
  | cons bit bits ih =>
      rw [polynomialOf, coeff_add, ih, coeff_monomial, List.reverse_cons]
      rcases Nat.lt_trichotomy power bits.length with hlt | rfl | hgt
      · rw [if_neg (Nat.ne_of_gt hlt), zero_add, List.getD_append _ _ _ _ (by simpa using hlt)]
      · simp
      · have hlength : (bits.reverse ++ [bit]).length ≤ power := by simpa using hgt
        rw [if_neg (Nat.ne_of_lt hgt), zero_add, List.getD_eq_default _ _ hlength,
          List.getD_eq_default _ _ (by simpa using hgt.le)]

theorem coeff_reflected (word : UInt32) (power : Nat) :
    (reflected word).coeff power =
      if power < 32 then ((word.toNat.testBit (31 - power)).toNat : ZMod 2) else 0 := by
  have hlength : (wordBits word).length = 32 := rfl
  rw [reflected, coeff_polynomialOf]
  split
  · rename_i hpower
    have hreverse : power < (wordBits word).reverse.length := by rwa [List.length_reverse]
    rw [List.getD_eq_getElem _ _ hreverse, List.getElem_reverse]
    simp only [wordBits, List.getElem_map, List.getElem_range, List.length_map, List.length_range]
    rfl
  · rename_i hpower
    rw [List.getD_eq_default _ _ (by simpa [hlength] using hpower)]
    rfl

theorem degree_reflected_lt (word : UInt32) : (reflected word).degree < 32 := by
  apply (degree_lt_iff_coeff_zero _ _).2
  intro power hpower
  rw [coeff_reflected, if_neg (Nat.not_lt.2 hpower)]

/-! ## The divisor -/

/-- The terms below the highest are those that are subtracted. -/
theorem castagnoli_eq : castagnoli = X ^ 32 + reflected polynomial := by
  have hbits : (wordBits 0x1EDC6F41).reverse = wordBits polynomial := by decide
  rw [castagnoli, hbits, reflected]

theorem castagnoli_monic : castagnoli.Monic := by
  rw [castagnoli_eq]
  exact monic_X_pow_add (degree_reflected_lt polynomial)

theorem degree_castagnoli : castagnoli.degree = 32 := by
  have hlower : (reflected polynomial).degree < (X ^ 32 : (ZMod 2)[X]).degree := by
    rw [degree_X_pow]
    exact degree_reflected_lt polynomial
  rw [castagnoli_eq, degree_add_eq_left_of_degree_lt hlower, degree_X_pow]
  rfl

/-! ## Division -/

/-- Coefficients of bits are added without a carry. -/
theorem toNat_xor_eq_add (first second : Bool) :
    ((first ^^ second).toNat : ZMod 2) = first.toNat + second.toNat := by
  cases first <;> cases second <;> rfl

theorem toNat_and_eq_mul (first second : Bool) :
    ((first && second).toNat : ZMod 2) = first.toNat * second.toNat := by
  cases first <;> cases second <;> rfl

/-- To feed a bit is one step of long division: the remainder goes one power up, the bit comes in
at power 32, and the divisor is taken off if that leaves a term there. -/
theorem reflected_feed (remainder : UInt32) (bit : Bool) :
    reflected (feed remainder bit) +
        castagnoli * C ((remainder.toNat.testBit 0 ^^ bit).toNat : ZMod 2) =
      reflected remainder * X + monomial 32 (bit.toNat : ZMod 2) := by
  have hfed (place : Nat) : ((feed remainder bit).toNat.testBit place).toNat =
      ((remainder.toNat.testBit (place + 1)).toNat +
        (remainder.toNat.testBit 0 ^^ bit).toNat * (polynomial.toNat.testBit place).toNat :
          ZMod 2) := by
    rw [testBit_feed, toNat_xor_eq_add, toNat_and_eq_mul]
  ext power
  rw [castagnoli_eq, coeff_add, coeff_add, coeff_mul_C, coeff_add, coeff_X_pow, coeff_monomial,
    coeff_reflected, coeff_reflected]
  cases power with
  | zero =>
      -- The lowest power takes nothing but what the divisor brings.
      have htop : remainder.toNat.testBit 32 = false := Nat.testBit_lt_two_pow remainder.toNat_lt
      have hlast : polynomial.toNat.testBit 31 = true := by decide
      rw [mul_coeff_zero, coeff_X_zero, mul_zero, if_pos (by decide), if_neg (by decide),
        if_pos (by decide), if_neg (by decide), hfed, htop, hlast, Bool.toNat_false,
        Bool.toNat_true, Nat.cast_zero, Nat.cast_one]
      linear_combination CharTwo.add_self_eq_zero
        ((remainder.toNat.testBit 0 ^^ bit).toNat : ZMod 2)
  | succ power =>
      rw [coeff_mul_X, coeff_reflected]
      rcases Nat.lt_trichotomy power 31 with hlt | rfl | hgt
      · -- A term of the remainder moves up and meets one of the divisor.
        have hplace : 31 - power = 31 - (power + 1) + 1 := by omega
        rw [if_pos (by omega), if_neg (by omega), if_pos (by omega), if_pos (by omega),
          if_neg (by omega), hfed, hplace]
        linear_combination CharTwo.add_self_eq_zero
          (((remainder.toNat.testBit 0 ^^ bit).toNat : ZMod 2) *
            (polynomial.toNat.testBit (31 - (power + 1))).toNat)
      · -- The highest term is taken off.
        rw [if_neg (by decide), if_pos rfl, if_neg (by decide), if_pos (by decide), if_pos rfl,
          toNat_xor_eq_add]
        ring
      · rw [if_neg (by omega), if_neg (by omega), if_neg (by omega), if_neg (by omega),
          if_neg (by omega)]
        ring

/-- What bits leave in a remainder is the remainder of a division. -/
theorem reflected_foldl_feed (bits : List Bool) (remainder : UInt32) :
    ∃ quotient, reflected (bits.foldl feed remainder) + castagnoli * quotient =
      polynomialOf bits * X ^ 32 + reflected remainder * X ^ bits.length := by
  induction bits generalizing remainder with
  | nil => exact ⟨0, by simp [polynomialOf]⟩
  | cons bit bits ih =>
      obtain ⟨quotient, hrest⟩ := ih (feed remainder bit)
      have hfeed := reflected_feed remainder bit
      refine ⟨quotient + C ((remainder.toNat.testBit 0 ^^ bit).toNat : ZMod 2) * X ^ bits.length, ?_⟩
      rw [← C_mul_X_pow_eq_monomial] at hfeed
      rw [List.foldl_cons, polynomialOf, ← C_mul_X_pow_eq_monomial, List.length_cons]
      linear_combination hrest + X ^ bits.length * hfeed

/-- What writes leave in a check sum is the remainder of their polynomial, 32 powers up, below that
of the check sum before them. -/
theorem reflected_extendAll (previous : UInt32) (writes : List (UInt32 × UInt32)) :
    reflected (extendAll previous writes) =
      (polynomialOf (serial writes) * X ^ 32 + reflected previous * X ^ (37 * writes.length)) %ₘ
        castagnoli := by
  obtain ⟨quotient, hdivision⟩ := reflected_foldl_feed (serial writes) previous
  rw [← extendAll_eq_foldl, length_serial] at hdivision
  have hdegree : (reflected (extendAll previous writes)).degree < castagnoli.degree := by
    rw [degree_castagnoli]
    exact degree_reflected_lt _
  exact (div_modByMonic_unique quotient _ castagnoli_monic ⟨hdivision, hdegree⟩).2.symm

theorem reflected_zero : reflected 0 = 0 := by
  ext power
  rw [coeff_reflected]
  simp

/-! ## The register of a division -/

/-- However far a division has come, its remainder is a word. -/
theorem remainder_run_lt (rounds : Nat) (input : UInt64) (previous : UInt32) :
    (Division.run rounds ⟨input, previous.toUInt64⟩).remainder.toNat < 2 ^ 32 := by
  rw [run_eq_foldl, UInt32.toNat_toUInt64]
  exact UInt32.toNat_lt _

/-- Nothing is lost when the last remainder is cut to a word. -/
theorem toUInt64_extend (address data previous : UInt32) :
    (extend address data previous).toUInt64 =
      (Division.run (addressBits + 32)
        ⟨address.toUInt64 <<< 32 ||| data.toUInt64, previous.toUInt64⟩).remainder := by
  rw [extend, run_eq_foldl, UInt32.toUInt32_toUInt64]

/-- The bits of an address above the lowest five take no part. -/
theorem extend_and_address (address data previous : UInt32) :
    extend (address &&& 0x1F) data previous = extend address data previous := by
  apply extend_address
  have hlow : (address &&& 0x1F).toNat = address.toNat % 2 ^ addressBits := by
    rw [UInt32.toNat_and]
    exact Nat.and_two_pow_sub_one_eq_mod address.toNat addressBits
  rw [hlow, Nat.mod_mod]

/-- The check sum of a sequence of writes is the remainder of the polynomial of their bits, 32
powers up, divided by the Castagnoli polynomial, with its highest power in the lowest bit. However
far a division has come, its remainder is a word, so nothing is lost when it is cut to one, and the
bits of an address above the lowest five take no part. -/
theorem extendAll_eq_remainder (writes : List (UInt32 × UInt32))
    (address data previous : UInt32) (rounds : Nat) :
    let start : Division := ⟨address.toUInt64 <<< 32 ||| data.toUInt64, previous.toUInt64⟩
    reflected (extendAll 0 writes) = (polynomialOf (serial writes) * X ^ 32) %ₘ castagnoli ∧
      (start.run rounds).remainder.toNat < 2 ^ 32 ∧
      (extend address data previous).toUInt64 = (start.run 37).remainder ∧
      extend address data previous = extend (address &&& 0x1F) data previous := by
  intro start
  have hsum := reflected_extendAll 0 writes
  rw [reflected_zero, zero_mul, add_zero] at hsum
  exact ⟨hsum, remainder_run_lt rounds _ previous, toUInt64_extend address data previous,
    (extend_and_address address data previous).symm⟩

end ConfigStream.Crc
