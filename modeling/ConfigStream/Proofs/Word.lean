import ConfigStream.Word
import Mathlib.Algebra.Ring.Nat

/-!
# Words bit by bit

A word is its bits (`Word.ext_testBit`), and the bits of an exclusive or are those in which the two
sides differ (`Word.testBit_xor`). How many they are depends on the two sides, up to an even number
(`countP_xor`). A bit that is cleared leaves the value of the bits above it and of those below it
(`Word.toNat_withBit_false`).
-/

namespace ConfigStream

/-- A word is its bits. -/
theorem Word.ext_testBit {first second : UInt32}
    (h : ∀ bit < Word.width, Word.testBit first bit = Word.testBit second bit) :
    first = second := by
  apply UInt32.toNat_inj.1
  apply Nat.eq_of_testBit_eq
  intro bit
  by_cases hbit : bit < Word.width
  · exact h bit hbit
  · have hfirst := Word.testBit_of_width_le first (Nat.le_of_not_lt hbit)
    have hsecond := Word.testBit_of_width_le second (Nat.le_of_not_lt hbit)
    exact hfirst.trans hsecond.symm

theorem Word.testBit_xor (first second : UInt32) (bit : Nat) :
    Word.testBit (first ^^^ second) bit =
      (Word.testBit first bit ^^ Word.testBit second bit) := by
  rw [Word.testBit, UInt32.toNat_xor, Nat.testBit_xor]
  rfl

/-- A word with one bit cleared is worth its bits above and below. -/
theorem Word.toNat_withBit_false (word : UInt32) {bit : Nat} (h : bit < Word.width) :
    (Word.withBit word bit false).toNat =
      2 ^ (bit + 1) * (word.toNat / 2 ^ (bit + 1)) + word.toNat % 2 ^ bit := by
  have hlow : word.toNat % 2 ^ bit < 2 ^ (bit + 1) :=
    Nat.lt_of_lt_of_le (Nat.mod_lt _ (Nat.two_pow_pos _))
      (Nat.pow_le_pow_right (by decide) (Nat.le_succ _))
  apply Nat.eq_of_testBit_eq
  intro other
  have hcleared := Word.testBit_withBit word h false other
  rw [Word.testBit, Word.testBit] at hcleared
  rw [hcleared, Nat.testBit_two_pow_mul_add _ hlow, Nat.testBit_mod_two_pow,
    Nat.testBit_div_two_pow]
  rcases Nat.lt_trichotomy other bit with hlt | rfl | hgt
  · rw [if_neg (Nat.ne_of_lt hlt), if_pos (Nat.lt_succ_of_lt hlt), decide_eq_true hlt,
      Bool.true_and]
  · simp
  · rw [if_neg (Nat.ne_of_gt hgt), if_neg (by omega)]
    congr 1
    omega

/-- Items for which one of two properties holds, but not both, are odd in number if the items with
the two properties are. -/
theorem countP_xor {α : Type} (first second : α → Bool) (items : List α) :
    items.countP (fun item => first item ^^ second item) % 2 =
      (items.countP first + items.countP second) % 2 := by
  induction items with
  | nil => rfl
  | cons item items ih =>
      simp only [List.countP_cons]
      cases first item <;> cases second item <;> simp <;> omega

end ConfigStream
