import ConfigStream.Proofs.Checksum.Crc

/-!
# One word changed

What a word does to the check sum depends on the exclusive or of the word and the check sum before
it, and on all of that (`Crc.extend_eq_iff`), because dividing out a clear bit is one to one
(`Crc.shift_injective`). Check sums that differ therefore stay apart, whatever follows, and one word
that is replaced changes the check sum of everything it is part of (`Crc.extendAll_replace_ne`).
-/

namespace ConfigStream.Crc

/-! ## Dividing out clear bits is one to one -/

/-- A clear bit that is divided out moves every bit of the remainder down, and the lowest bit goes
to the places of the polynomial. -/
theorem testBit_shift (remainder : UInt32) (bit : Nat) :
    (shift remainder).toNat.testBit bit =
      (remainder.toNat.testBit (bit + 1) ^^
        (remainder.toNat.testBit 0 && polynomial.toNat.testBit bit)) := by
  have hshift : (shift remainder).toNat = (Division.next ⟨0, remainder.toUInt64⟩).remainder.toNat :=
    congrArg (·.remainder.toNat) (next_clear remainder).symm
  have hfactor : (polynomial.toUInt64 <<< 1).toNat.testBit (bit + 1) =
      polynomial.toNat.testBit bit := by
    rw [show (polynomial.toUInt64 <<< 1).toNat = polynomial.toNat <<< 1 from rfl,
      Nat.testBit_shiftLeft, Nat.add_sub_cancel]
    simp
  rw [hshift, Division.next_eq, UInt64.toNat_shiftRight, UInt64.toNat_xor, UInt32.toNat_toUInt64]
  show ((remainder.toNat ^^^ _) >>> 1).testBit bit = _
  rw [Nat.testBit_shiftRight, Nat.testBit_xor, Nat.add_comm 1 bit]
  cases hlowest : remainder.toNat.testBit 0 with
  | true =>
      rw [if_neg (show ¬ (0 : UInt64).toNat.testBit 0 = true by decide), hfactor, Bool.true_and]
  | false =>
      rw [if_pos (show (0 : UInt64).toNat.testBit 0 = false by decide), UInt64.toNat_zero,
        Nat.zero_testBit, Bool.false_and]

/-- A linear map that takes only zero to zero is one to one. -/
theorem IsLinear.injective {map : UInt32 → UInt32} (h : IsLinear map)
    (hzero : ∀ word, map word = 0 → word = 0) : Function.Injective map := by
  intro first second hsame
  apply UInt32.xor_eq_zero_iff.1
  apply hzero
  rw [h, hsame, UInt32.xor_self]

theorem shift_injective : Function.Injective shift := by
  apply shift_linear.injective
  intro remainder hzero
  have hbits (bit : Nat) := testBit_shift remainder bit
  simp only [hzero, UInt32.toNat_zero, Nat.zero_testBit] at hbits
  -- The polynomial has the highest place, where no other bit of the remainder goes.
  have hlowest : remainder.toNat.testBit 0 = false := by
    have htop : remainder.toNat.testBit 32 = false := Nat.testBit_lt_two_pow remainder.toNat_lt
    have hplace : polynomial.toNat.testBit 31 = true := by decide
    simpa [htop, hplace] using hbits 31
  apply UInt32.toNat_inj.1
  apply Nat.eq_of_testBit_eq
  intro bit
  rw [UInt32.toNat_zero, Nat.zero_testBit]
  cases bit with
  | zero => exact hlowest
  | succ bit => simpa [hlowest] using (hbits bit).symm

/-! ## Words and check sums -/

/-- A remainder that agrees with the input in every bit is used up by it. -/
theorem Division.run_same {bits : Nat} {value : UInt64} (h : value.toNat < 2 ^ bits) :
    (Division.run bits ⟨value, value⟩).remainder = 0 := by
  induction bits generalizing value with
  | zero => exact UInt64.toNat_inj.1 (Nat.lt_one_iff.1 h)
  | succ bits ih =>
      have hnext : (⟨value, value⟩ : Division).next = ⟨value >>> 1, value >>> 1⟩ := by
        rw [next_eq, if_pos rfl, UInt64.xor_zero]
      rw [run, hnext]
      apply ih
      rw [UInt64.toNat_shiftRight]
      show value.toNat >>> 1 < _
      rw [Nat.shiftRight_one]
      omega

/-- A check sum is used up by a word of its own value. -/
theorem extend_self (word : UInt32) : extend 0 word word = 0 := by
  have hinput : (0 : UInt32).toUInt64 <<< 32 ||| word.toUInt64 = word.toUInt64 :=
    UInt64.zero_or
  have hlt : word.toUInt64.toNat < 2 ^ (addressBits + 32) := by
    have := word.toNat_lt
    rw [UInt32.toNat_toUInt64]
    show _ < 2 ^ 37
    omega
  rw [extend, hinput]
  exact congrArg UInt64.toUInt32 (Division.run_same hlt)

/-- Two check sums differ by what is left of the words and of the check sums before them. -/
theorem extend_xor_extend (address data other previous before : UInt32) :
    extend address data previous ^^^ extend address other before =
      shift^[addressBits + 32] ((data ^^^ previous) ^^^ (other ^^^ before)) := by
  have hdifference := extend_xor address address data other previous before
  have hself := extend_xor 0 0 (data ^^^ other) 0 (data ^^^ other)
    ((data ^^^ other) ^^^ (previous ^^^ before))
  rw [UInt32.xor_self] at hdifference
  rw [UInt32.xor_self, UInt32.xor_zero, extend_self, UInt32.zero_xor, extend_zero,
    ← UInt32.xor_assoc, UInt32.xor_self, UInt32.zero_xor] at hself
  rw [← hdifference, hself]
  congr 1
  ac_rfl

/-- Check sums agree exactly if the words differ by what the check sums before them differ by. -/
theorem extend_eq_iff {address data other previous before : UInt32} :
    extend address data previous = extend address other before ↔
      data ^^^ previous = other ^^^ before := by
  have hclear : shift^[addressBits + 32] 0 = 0 := (shift_linear.iterate _).zero
  have hinjective := shift_injective.iterate (addressBits + 32)
  rw [← UInt32.xor_eq_zero_iff, extend_xor_extend, ← @UInt32.xor_eq_zero_iff (data ^^^ previous)]
  constructor
  · exact fun hzero => hinjective (hzero.trans hclear.symm)
  · intro hzero
    rw [hzero, hclear]

/-- Check sums that differ stay apart. -/
theorem extendAll_injective (writes : List (UInt32 × UInt32)) :
    Function.Injective fun previous => extendAll previous writes := by
  induction writes with
  | nil => exact fun _ _ hsame => hsame
  | cons write writes ih =>
      intro previous before hsame
      have hword : extend write.1 write.2 previous = extend write.1 write.2 before := ih hsame
      exact (UInt32.xor_right_inj _).1 (extend_eq_iff.1 hword)

/-- A word that is replaced changes the check sum, whatever stands before and after it. -/
theorem extendAll_replace_ne {word other : UInt32} (h : word ≠ other) (address previous : UInt32)
    (early late : List (UInt32 × UInt32)) :
    extendAll previous (early ++ (address, word) :: late) ≠
      extendAll previous (early ++ (address, other) :: late) := by
  intro hsame
  simp only [extendAll, List.foldl_append, List.foldl_cons] at hsame
  have hword : extend address word (extendAll previous early) =
      extend address other (extendAll previous early) := extendAll_injective late hsame
  exact h ((UInt32.xor_left_inj _).1 (extend_eq_iff.1 hword))

end ConfigStream.Crc
