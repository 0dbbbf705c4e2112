import ConfigStream.Text.Numeral
import Mathlib.Data.List.Forall2
import Mathlib.Data.Nat.Digits.Defs
import Mathlib.Tactic.Ring

/-!
# Numerals read back

A number is spelled by digits of its radix, letters in either case, the most significant digit
first and with any zeros in front; a plus sign may lead it. Exactly the spellings of a number below
the limit are read, and as that number (`Text.unsigned?_eq_some_iff`): reading ends where the limit
is reached, but more digits would not have made the number smaller. The digits that a number is
printed with are one of its spellings (`Text.spells_digits`). Integers are read by the same rule
after a sign (`Text.signed?_eq_some_iff`), and addresses from the digits that a text begins with
(`Text.leadingHex?_eq_some_iff`).
-/

namespace ConfigStream.Text

variable {radix limit total place value : Nat} {digit : Char} {digits text : List Char}

/-! ## Digits -/

/-- A digit and its value in a radix of at most 16. Letters stand in either case. -/
def IsDigit (radix place : Nat) (digit : Char) : Prop :=
  place < radix ∧ (digit = place.digitChar ∨ digit = place.digitChar.toUpper)

instance (radix place : Nat) (digit : Char) : Decidable (IsDigit radix place digit) :=
  inferInstanceAs (Decidable (_ ∧ _))

/-- The digits of a smaller radix are the hexadecimal digits of a smaller value. -/
theorem digitValue?_eq_some_iff_hex (hradix : radix ≤ 16) :
    digitValue? radix digit = some place ↔
      digitValue? 16 digit = some place ∧ place < radix := by
  simp only [digitValue?, Option.filter_eq_some_iff, decide_eq_true_eq, and_assoc]
  exact and_congr_right fun _ => ⟨fun h => ⟨Nat.lt_of_lt_of_le h hradix, h⟩, And.right⟩

/-- Digits are letters and figures of the first 128 characters. -/
theorem toNat_lt_of_digitValue? (h : digitValue? radix digit = some place) :
    digit.toNat < 128 := by
  simp only [digitValue?, Option.filter_eq_some_iff] at h
  have hle (last : Char) (hlast : digit ≤ last) : digit.toNat ≤ last.toNat :=
    UInt32.le_iff_toNat_le.1 hlast
  by_cases hfigure : '0' ≤ digit ∧ digit ≤ '9'
  · exact Nat.lt_of_le_of_lt (hle '9' hfigure.2) (by decide)
  by_cases hsmall : 'a' ≤ digit ∧ digit ≤ 'z'
  · exact Nat.lt_of_le_of_lt (hle 'z' hsmall.2) (by decide)
  by_cases hcapital : 'A' ≤ digit ∧ digit ≤ 'Z'
  · exact Nat.lt_of_le_of_lt (hle 'Z' hcapital.2) (by decide)
  · simp [hfigure, hsmall, hcapital] at h

/-- A character is read as a digit exactly if it is one. -/
theorem digitValue?_eq_some_iff (hradix : radix ≤ 16) :
    digitValue? radix digit = some place ↔ IsDigit radix place digit := by
  -- Only 128 characters are in question, and 16 values.
  have hread : ∀ code < 128, ∀ place ∈ digitValue? 16 (Char.ofNat code),
      Char.ofNat code = place.digitChar ∨ Char.ofNat code = place.digitChar.toUpper := by decide
  have hspelled : ∀ place < 16, digitValue? 16 place.digitChar = some place ∧
      digitValue? 16 place.digitChar.toUpper = some place := by decide
  rw [digitValue?_eq_some_iff_hex hradix, IsDigit]
  constructor
  · rintro ⟨h, hlt⟩
    have hcode := hread digit.toNat (toNat_lt_of_digitValue? h) place
    rw [Char.ofNat_toNat] at hcode
    exact ⟨hlt, hcode h⟩
  · rintro ⟨hlt, rfl | rfl⟩
    · exact ⟨(hspelled place (by omega)).1, hlt⟩
    · exact ⟨(hspelled place (by omega)).2, hlt⟩

/-! ## Spellings -/

/-- Digits, the most significant first, that spell a number. -/
def Spells (radix : Nat) (digits : List Char) (value : Nat) : Prop :=
  ∃ places : List Nat, List.Forall₂ (IsDigit radix) places digits ∧ places ≠ [] ∧
    Nat.ofDigits radix places.reverse = value

/-- A number as it may be written: its digits, perhaps with a plus sign in front of them. -/
inductive Writes (radix : Nat) : List Char → Nat → Prop where
  | bare {digits : List Char} {value : Nat} :
      Spells radix digits value → Writes radix digits value
  | signed {digits : List Char} {value : Nat} :
      Spells radix digits value → Writes radix ('+' :: digits) value

/-- One more digit moves a number up and is added to it. -/
theorem Spells.concat (h : Spells radix digits total) (hdigit : IsDigit radix place digit) :
    Spells radix (digits ++ [digit]) (total * radix + place) := by
  obtain ⟨places, hplaces, -, rfl⟩ := h
  refine ⟨places ++ [place], List.rel_append hplaces (.cons hdigit .nil), by simp, ?_⟩
  rw [List.reverse_append, List.reverse_singleton, List.singleton_append, Nat.ofDigits_cons]
  ring

/-- Zeros in front of a number do not count. -/
theorem Spells.zeros (h : Spells radix digits value) (hradix : 0 < radix) (count : Nat) :
    Spells radix (List.replicate count '0' ++ digits) value := by
  obtain ⟨places, hplaces, hne, rfl⟩ := h
  have hzeros : List.Forall₂ (IsDigit radix) (List.replicate count 0)
      (List.replicate count '0') := by
    induction count with
    | zero => exact .nil
    | succ count ih => exact .cons ⟨hradix, .inl rfl⟩ ih
  refine ⟨List.replicate count 0 ++ places, List.rel_append hzeros hplaces, by simp [hne], ?_⟩
  rw [List.reverse_append, List.reverse_replicate, Nat.ofDigits_append_replicate_zero]

/-- What digits of the radix are, all characters that spell a number are. -/
theorem Spells.forall_mem {motive : Char → Prop} (h : Spells radix digits value)
    (hdigits : ∀ place < radix, motive place.digitChar ∧ motive place.digitChar.toUpper) :
    ∀ c ∈ digits, motive c := by
  obtain ⟨places, hplaces, -⟩ := h
  induction hplaces with
  | nil => simp
  | cons hdigit _ ih =>
      refine List.forall_mem_cons.2 ⟨?_, ih⟩
      obtain ⟨hlt, rfl | rfl⟩ := hdigit
      · exact (hdigits _ hlt).1
      · exact (hdigits _ hlt).2

/-- What the plus sign and digits of the radix are, all characters of a written number are. -/
theorem Writes.forall_mem {motive : Char → Prop} (h : Writes radix text value)
    (hplus : motive '+')
    (hdigits : ∀ place < radix, motive place.digitChar ∧ motive place.digitChar.toUpper) :
    ∀ c ∈ text, motive c := by
  cases h with
  | bare hspells => exact hspells.forall_mem hdigits
  | signed hspells => exact List.forall_mem_cons.2 ⟨hplus, hspells.forall_mem hdigits⟩

/-! ## Reading -/

/-- What is read is the total, moved up by the digits that follow it, and what they spell. -/
theorem extendNatural?_eq_some_iff (hradix : radix ≤ 16) (htotal : total < limit) :
    extendNatural? radix limit total digits = some value ↔
      value < limit ∧ ∃ places, List.Forall₂ (IsDigit radix) places digits ∧
        total * radix ^ digits.length + Nat.ofDigits radix places.reverse = value := by
  induction digits generalizing total with
  | nil =>
      simp only [extendNatural?, Option.some.injEq, List.forall₂_nil_right_iff, exists_eq_left,
        List.length_nil, pow_zero, Nat.mul_one, List.reverse_nil, Nat.ofDigits_nil, Nat.add_zero]
      exact ⟨fun h => ⟨h ▸ htotal, h⟩, And.right⟩
  | cons digit digits ih =>
      have hmove (place : Nat) (places : List Nat) (hlength : places.length = digits.length) :
          total * radix ^ (digit :: digits).length + Nat.ofDigits radix (place :: places).reverse =
            (total * radix + place) * radix ^ digits.length +
              Nat.ofDigits radix places.reverse := by
        rw [List.reverse_cons, Nat.ofDigits_append, Nat.ofDigits_singleton, List.length_reverse,
          hlength, List.length_cons]
        ring
      simp only [extendNatural?, Option.bind_eq_bind, Option.bind_eq_some_iff,
        digitValue?_eq_some_iff hradix]
      constructor
      · rintro ⟨place, hplace, hrest⟩
        split at hrest
        · rename_i hlt
          obtain ⟨hvalue, places, hplaces, heq⟩ := (ih hlt).1 hrest
          exact ⟨hvalue, place :: places, hplaces.cons hplace,
            (hmove place places hplaces.length_eq).trans heq⟩
        · cases hrest
      · rintro ⟨hvalue, _, hplaces, heq⟩
        cases hplaces with
        | @cons place _ places _ hplace hplaces =>
            rw [hmove place places hplaces.length_eq] at heq
            -- The digits to come cannot bring a total that is too large below the limit.
            have hpow : 0 < radix ^ digits.length := Nat.pow_pos (Nat.zero_lt_of_lt hplace.1)
            have hle : total * radix + place ≤ value :=
              (Nat.le_mul_of_pos_right _ hpow).trans (heq ▸ Nat.le_add_right _ _)
            have hlt : total * radix + place < limit := Nat.lt_of_le_of_lt hle hvalue
            refine ⟨place, hplace, ?_⟩
            rw [if_pos hlt]
            exact (ih hlt).2 ⟨hvalue, places, hplaces, heq⟩

/-- Exactly what spells a number below the limit is read without a sign. -/
theorem natural?_eq_some_iff (hradix : radix ≤ 16) (hlimit : 0 < limit) :
    natural? radix limit digits = some value ↔ Spells radix digits value ∧ value < limit := by
  cases digits with
  | nil => simp [natural?, Spells]
  | cons digit digits =>
      have hne (places : List Nat)
          (h : List.Forall₂ (IsDigit radix) places (digit :: digits)) : places ≠ [] := by
        rintro rfl
        cases h
      rw [natural?, if_neg (by simp), extendNatural?_eq_some_iff hradix hlimit, Nat.zero_mul, Spells]
      simp only [Nat.zero_add]
      constructor
      · rintro ⟨hlt, places, hplaces, heq⟩
        exact ⟨⟨places, hplaces, hne places hplaces, heq⟩, hlt⟩
      · rintro ⟨⟨places, hplaces, -, heq⟩, hlt⟩
        exact ⟨hlt, places, hplaces, heq⟩

/-- Exactly the ways to write a number below the limit are read, and as that number. -/
theorem unsigned?_eq_some_iff (hradix : radix ≤ 16) (hlimit : 0 < limit) :
    unsigned? radix limit text = some value ↔ Writes radix text value ∧ value < limit := by
  have hplus (digits : List Char) : ¬ Spells radix ('+' :: digits) value := fun h => by
    have hne : ∀ place < 16, place.digitChar ≠ '+' ∧ place.digitChar.toUpper ≠ '+' := by decide
    exact h.forall_mem (motive := (· ≠ '+')) (fun place hlt => hne place (by omega)) '+'
      List.mem_cons_self rfl
  unfold unsigned?
  split
  · rename_i digits
    rw [natural?_eq_some_iff hradix hlimit]
    refine and_congr_left fun _ => ⟨.signed, fun h => ?_⟩
    cases h with
    | bare hspells => exact absurd hspells (hplus digits)
    | signed hspells => exact hspells
  · rename_i hbare
    rw [natural?_eq_some_iff hradix hlimit]
    refine and_congr_left fun _ => ⟨.bare, fun h => ?_⟩
    cases h with
    | bare hspells => exact hspells
    | signed hspells => exact absurd rfl (hbare _)

/-! ## Integers -/

/-- An integer as it may be written: a number, or a minus sign and the digits of one. -/
inductive WritesInteger : List Char → Int → Prop where
  | natural {text : List Char} {value : Nat} (h : Writes 10 text value) :
      WritesInteger text (value : Int)
  | negative {digits : List Char} {value : Nat} (h : Spells 10 digits value) :
      WritesInteger ('-' :: digits) (-(value : Int))

/-- No digit and no plus sign is a minus sign. -/
theorem not_writes_minus : ¬ Writes 10 ('-' :: digits) value := by
  intro h
  exact h.forall_mem (motive := (· ≠ '-')) (by decide) (by decide) '-' List.mem_cons_self rfl

/-- Exactly the ways to write an integer within the bounds are read, and as that integer. -/
theorem signed?_eq_some_iff {bound : Nat} (hbound : 0 < bound) {value : Int} :
    signed? bound text = some value ↔
      WritesInteger text value ∧ -(bound : Int) ≤ value ∧ value < bound := by
  have hten : 10 ≤ 16 := by decide
  unfold signed?
  split
  · rename_i digits
    simp only [Option.map_eq_some_iff, Option.bind_eq_bind, Option.bind_eq_some_iff,
      Option.pure_def, Option.some.injEq, natural?_eq_some_iff hten (Nat.succ_pos bound)]
    constructor
    · intro h
      obtain ⟨_, ⟨size, ⟨hspells, hlt⟩, rfl⟩, rfl⟩ := h
      exact ⟨.negative hspells, by omega, by omega⟩
    · intro h
      obtain ⟨hwrites, hle, -⟩ := h
      cases hwrites with
      | natural hwrites => exact absurd hwrites not_writes_minus
      | @negative _ size hspells => exact ⟨size, ⟨size, ⟨hspells, by omega⟩, rfl⟩, rfl⟩
  · rename_i hbare
    simp only [Option.map_eq_some_iff, unsigned?_eq_some_iff hten hbound]
    constructor
    · intro h
      obtain ⟨size, ⟨hwrites, hlt⟩, rfl⟩ := h
      rw [Int.ofNat_eq_natCast]
      exact ⟨.natural hwrites, by omega, by omega⟩
    · intro h
      obtain ⟨hwrites, -, hlt⟩ := h
      cases hwrites with
      | @natural _ size hwrites => exact ⟨size, ⟨hwrites, by omega⟩, rfl⟩
      | negative => exact absurd rfl (hbare _)

/-! ## Printing -/

/-- The shortest digits of a number spell it. -/
theorem spells_toDigits (hone : 1 < radix) (value : Nat) :
    Spells radix (Nat.toDigits radix value) value := by
  induction value using Nat.strongRecOn with
  | ind value ih =>
      by_cases hlt : value < radix
      · rw [Nat.toDigits_of_lt_base hlt]
        exact ⟨[value], .cons ⟨hlt, .inl rfl⟩ .nil, List.cons_ne_nil _ _, Nat.ofDigits_singleton ..⟩
      · have hle : radix ≤ value := Nat.le_of_not_lt hlt
        have hmod : value % radix < radix := Nat.mod_lt value (by omega)
        have hparts := (ih _ (Nat.div_lt_self (by omega) hone)).concat ⟨hmod, .inl rfl⟩
        rwa [Nat.div_add_mod', ← Nat.toDigits_of_base_le hone hle] at hparts

/-- The digits that a number is printed with spell it. -/
theorem spells_digits (hone : 1 < radix) (width value : Nat) :
    Spells radix (Text.digits radix width value) value :=
  (spells_toDigits hone value).zeros (Nat.zero_lt_of_lt hone) _

/-- Digits are printed in lower case. -/
theorem exists_digitChar_of_mem_digits (hone : 1 < radix) {width : Nat}
    (h : digit ∈ Text.digits radix width value) : ∃ place < radix, digit = place.digitChar := by
  have hshortest (value : Nat) (h : digit ∈ Nat.toDigits radix value) :
      ∃ place < radix, digit = place.digitChar := by
    induction value using Nat.strongRecOn with
    | ind value ih =>
        by_cases hlt : value < radix
        · rw [Nat.toDigits_of_lt_base hlt] at h
          exact ⟨value, hlt, List.mem_singleton.1 h⟩
        · have hle : radix ≤ value := Nat.le_of_not_lt hlt
          rw [Nat.toDigits_of_base_le hone hle] at h
          rcases List.mem_append.1 h with hfront | hlast
          · exact ih _ (Nat.div_lt_self (by omega) hone) hfront
          · exact ⟨_, Nat.mod_lt value (by omega), List.mem_singleton.1 hlast⟩
  rcases List.mem_append.1 h with hzero | hmem
  · exact ⟨0, Nat.zero_lt_of_lt hone, List.eq_of_mem_replicate hzero⟩
  · exact hshortest value hmem

/-- A number is printed with at least so many digits. -/
theorem le_length_digits (radix width value : Nat) :
    width ≤ (Text.digits radix width value).length := by
  simp only [Text.digits, List.length_append, List.length_replicate]
  omega

/-- A number with at most two digits is printed with both. -/
theorem digits_two (hone : 1 < radix) (hvalue : value < radix * radix) :
    Text.digits radix 2 value = [(value / radix).digitChar, (value % radix).digitChar] := by
  unfold Text.digits
  by_cases hlt : value < radix
  · rw [Nat.toDigits_of_lt_base hlt, Nat.div_eq_of_lt hlt, Nat.mod_eq_of_lt hlt]
    rfl
  · have hdiv : value / radix < radix := Nat.div_lt_of_lt_mul hvalue
    rw [Nat.toDigits_of_base_le hone (Nat.le_of_not_lt hlt), Nat.toDigits_of_lt_base hdiv]
    rfl

/-! ## Marks -/

/-- What may stand in front of hexadecimal digits. -/
def hexMarks : List (List Char) := [[], ['0', 'x'], ['0', 'X']]

/-- A mark is taken off, if there is one. -/
theorem exists_mark_append_unmarked (text : List Char) :
    ∃ mark ∈ hexMarks, text = mark ++ unmarked text := by
  unfold unmarked
  split
  · exact ⟨['0', 'x'], by simp [hexMarks], rfl⟩
  · exact ⟨['0', 'X'], by simp [hexMarks], rfl⟩
  · exact ⟨[], by simp [hexMarks], rfl⟩

/-- A written number is left when the mark in front of it is taken off. -/
theorem unmarked_append {mark : List Char} (hmark : mark ∈ hexMarks) (h : Writes 16 text value) :
    unmarked (mark ++ text) = text := by
  have hletters : ∀ c ∈ text, c ≠ 'x' ∧ c ≠ 'X' :=
    h.forall_mem (motive := fun c => c ≠ 'x' ∧ c ≠ 'X') (by decide) (by decide)
  simp only [hexMarks, List.mem_cons, List.not_mem_nil, or_false] at hmark
  rcases hmark with rfl | rfl | rfl
  · rw [List.nil_append]
    unfold unmarked
    split
    · exact absurd rfl (hletters 'x' (by simp)).1
    · exact absurd rfl (hletters 'X' (by simp)).2
    · rfl
  · rfl
  · rfl

/-! ## Numbers that begin a text -/

/-- A text begins with a number: hexadecimal digits that spell it, after a mark if there is one,
and no further digit after them. -/
def BeginsWith (text : List Char) (value : Nat) : Prop :=
  ∃ digits rest, unmarked text = digits ++ rest ∧ Spells 16 digits value ∧
    ∀ c ∈ rest.head?, ∀ place, ¬ IsDigit 16 place c

/-- Exactly the 32-bit number that a text begins with is read from it. -/
theorem leadingHex?_eq_some_iff {address : UInt32} :
    leadingHex? text = some address ↔ BeginsWith text address.toNat := by
  have hsixteen : 16 ≤ 16 := Nat.le_refl 16
  have hlimit : 0 < limit32 := by decide
  unfold leadingHex?
  simp only [Option.map_eq_some_iff, natural?_eq_some_iff hsixteen hlimit]
  constructor
  · intro h
    obtain ⟨value, ⟨hspells, hlt⟩, rfl⟩ := h
    rw [UInt32.toNat_ofNat_of_lt' hlt]
    refine ⟨_, _, List.takeWhile_append_dropWhile.symm, hspells, ?_⟩
    intro c hc place hplace
    have hhead := List.head?_dropWhile_not (fun c => (digitValue? 16 c).isSome) (unmarked text)
    rw [Option.mem_def.1 hc] at hhead
    simp only [(digitValue?_eq_some_iff hsixteen).2 hplace, Option.isSome_some,
      Bool.true_eq_false] at hhead
  · intro h
    obtain ⟨digits, rest, htext, hspells, hrest⟩ := h
    have hall : ∀ c ∈ digits, (digitValue? 16 c).isSome = true :=
      hspells.forall_mem (motive := fun c => (digitValue? 16 c).isSome = true) (by decide)
    have hnone : rest.takeWhile (fun c => (digitValue? 16 c).isSome) = [] := by
      cases rest with
      | nil => rfl
      | cons c rest =>
          rw [List.takeWhile_cons_of_neg]
          intro hc
          obtain ⟨place, hplace⟩ := Option.isSome_iff_exists.1 hc
          exact hrest c rfl place ((digitValue?_eq_some_iff hsixteen).1 hplace)
    refine ⟨address.toNat, ⟨?_, address.toNat_lt⟩, UInt32.ofNat_toNat⟩
    rwa [htext, List.takeWhile_append_of_pos hall, hnone, List.append_nil]

end ConfigStream.Text
