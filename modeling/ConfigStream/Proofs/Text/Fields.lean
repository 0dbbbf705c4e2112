import ConfigStream.Text.Fields
import Mathlib.Data.List.TakeWhile

/-!
# Cutting a text

A text is cut at its first separator (`Text.cut?_eq_some`), has a field unless all of it is blank
(`Text.fields_eq_nil`), and is trimmed of the blanks at its ends (`Text.trim_eq_iff`).
-/

namespace ConfigStream.Text

variable {separator : Char} {text before after inner : List Char}

/-! ## Cutting -/

theorem cut?_cons (separator c : Char) (text : List Char) :
    cut? separator (c :: text) =
      if c = separator then some ([], text)
      else (cut? separator text).map fun parts => (c :: parts.1, parts.2) := by
  by_cases hc : c = separator
  · simp [cut?, hc]
  · simp only [cut?, List.dropWhile_cons, List.takeWhile_cons, bne_iff_ne, ne_eq, hc,
      not_false_eq_true, if_true, if_false]
    cases text.dropWhile (· != separator) <;> rfl

/-- A text is cut at the first separator. -/
theorem cut?_eq_some :
    cut? separator text = some (before, after) ↔
      text = before ++ separator :: after ∧ separator ∉ before := by
  induction text generalizing before with
  | nil => simp [cut?]
  | cons c text ih =>
      rw [cut?_cons]
      by_cases hc : c = separator
      · cases before with
        | nil => simp [hc]
        | cons first before =>
            -- The first part begins with the separator, or the text with something else.
            simp only [hc, if_true, Option.some.injEq, Prod.mk.injEq, List.nil_eq,
              reduceCtorEq, false_and, List.cons_append, List.cons.injEq, List.mem_cons, not_or,
              false_iff, not_and]
            rintro ⟨hfirst, -⟩ hne
            exact absurd hfirst hne
      · simp only [hc, if_false, Option.map_eq_some_iff, Prod.exists, Prod.mk.injEq]
        constructor
        · rintro ⟨front, rest, hcut, rfl, rfl⟩
          obtain ⟨rfl, hfront⟩ := ih.1 hcut
          exact ⟨rfl, List.not_mem_cons_of_ne_of_not_mem (Ne.symm hc) hfront⟩
        · rintro ⟨htext, hbefore⟩
          cases before with
          | nil => exact absurd (List.cons.inj htext).1 hc
          | cons first front =>
              obtain ⟨rfl, rfl⟩ := List.cons.inj htext
              exact ⟨front, after, ih.2 ⟨rfl, List.not_mem_of_not_mem_cons hbefore⟩, rfl, rfl⟩

/-! ## Fields -/

/-- A text has no field if and only if all of it is blank. -/
theorem fields_eq_nil : fields text = [] ↔ ∀ c ∈ text, isBlank c = true := by
  rw [fields]
  split
  · rename_i hsplit
    exact iff_of_true rfl (List.dropWhile_eq_nil_iff.1 hsplit)
  · rename_i first rest hsplit
    refine iff_of_false (List.cons_ne_nil _ _) fun hblank => ?_
    rw [List.dropWhile_eq_nil_iff.2 hblank] at hsplit
    cases hsplit

/-! ## Trimming -/

/-- What is left without the blanks at the start: blanks stand before it, and it begins with
none. -/
theorem trimLeft_eq_iff : trimLeft text = inner ↔
    (∃ before, text = before ++ inner ∧ ∀ c ∈ before, isBlank c = true) ∧
      ∀ c ∈ inner.head?, isBlank c = false := by
  constructor
  · rintro rfl
    refine ⟨⟨text.takeWhile isBlank, List.takeWhile_append_dropWhile.symm,
      fun c => List.mem_takeWhile_imp⟩, fun c hc => ?_⟩
    have hhead := List.head?_dropWhile_not isBlank text
    rwa [← trimLeft, Option.mem_def.1 hc] at hhead
  · rintro ⟨⟨before, rfl, hbefore⟩, hhead⟩
    rw [trimLeft, List.dropWhile_append_of_pos hbefore]
    cases inner with
    | nil => rfl
    | cons c inner => rw [List.dropWhile_cons, hhead c rfl, if_neg Bool.false_ne_true]

/-- What is left without the blanks at the end: blanks stand after it, and it ends with none. -/
theorem trimRight_eq_iff : trimRight text = inner ↔
    (∃ after, text = inner ++ after ∧ ∀ c ∈ after, isBlank c = true) ∧
      ∀ c ∈ inner.getLast?, isBlank c = false := by
  rw [trimRight, List.reverse_eq_iff, ← trimLeft, trimLeft_eq_iff, List.head?_reverse]
  refine and_congr_left fun _ => ⟨?_, ?_⟩
  · rintro ⟨after, heq, hafter⟩
    exact ⟨after.reverse, by simpa using congrArg List.reverse heq, by simpa using hafter⟩
  · rintro ⟨after, rfl, hafter⟩
    exact ⟨after.reverse, by simp, by simpa using hafter⟩

/-- A text with blanks around a part that neither begins nor ends with one. -/
structure Trims (text inner : List Char) : Prop where
  around : ∃ before after, text = before ++ inner ++ after ∧
    (∀ c ∈ before, isBlank c = true) ∧ ∀ c ∈ after, isBlank c = true
  first : ∀ c ∈ inner.head?, isBlank c = false
  last : ∀ c ∈ inner.getLast?, isBlank c = false

/-- Trimming takes off the blanks at both ends, and nothing else. -/
theorem trim_eq_iff : trim text = inner ↔ Trims text inner := by
  constructor
  · intro h
    obtain ⟨⟨after, hmiddle, hafter⟩, hlast⟩ := trimRight_eq_iff.1 h
    obtain ⟨⟨before, rfl, hbefore⟩, hfirst⟩ := trimLeft_eq_iff.1 hmiddle
    exact ⟨⟨before, after, (List.append_assoc ..).symm, hbefore, hafter⟩,
      fun c hc => hfirst c (by simp [Option.mem_def.1 hc]), hlast⟩
  · rintro ⟨⟨before, after, rfl, hbefore, hafter⟩, hfirst, hlast⟩
    rw [List.append_assoc]
    cases inner with
    | nil =>
        -- All is blank, and nothing is left for the second end.
        have hnil : trimLeft (before ++ ([] ++ after)) = [] :=
          trimLeft_eq_iff.2 ⟨⟨before ++ after, by simp, fun c hc =>
            (List.mem_append.1 hc).elim (hbefore c) (hafter c)⟩, by simp⟩
        rw [trim, hnil]
        rfl
    | cons c inner =>
        have hmiddle : trimLeft (before ++ (c :: inner ++ after)) = c :: inner ++ after :=
          trimLeft_eq_iff.2 ⟨⟨before, rfl, hbefore⟩, hfirst⟩
        rw [trim, hmiddle, trimRight_eq_iff]
        exact ⟨⟨after, rfl, hafter⟩, hlast⟩

/-- A text without blanks is not trimmed. -/
theorem trim_of_forall (h : ∀ c ∈ text, isBlank c = false) : trim text = text :=
  trim_eq_iff.2 ⟨⟨[], [], by simp, by simp, by simp⟩, fun c hc => h c (List.mem_of_mem_head? hc),
    fun c hc => h c (List.mem_of_mem_getLast? hc)⟩

end ConfigStream.Text
