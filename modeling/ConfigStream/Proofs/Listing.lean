import ConfigStream.Proofs.Frame.Address
import ConfigStream.Report

/-!
# Listings read back

A listing has one line for each event that is shown, whatever a diagnostic says, and the lines that
say something are the written forms of the bits (`Report.map_text_entries_listing`).
-/

namespace ConfigStream

open Text

/-! ## One line for each event -/

/-- A text in one line. -/
def IsOneLine (text : String) : Prop := ∀ c ∈ text.toList, IsInline c

instance (text : String) : Decidable (IsOneLine text) :=
  List.decidableBAll IsInline text.toList

@[simp]
theorem isOneLine_append {first second : String} :
    IsOneLine (first ++ second) ↔ IsOneLine first ∧ IsOneLine second := by
  rw [IsOneLine, String.toList_append]
  exact List.forall_mem_append

@[simp]
theorem isOneLine_hex (width value : Nat) : IsOneLine (hex width value) := by
  rw [IsOneLine, hex, String.toList_ofList]
  exact (spells_digits (by decide) width value).forall_mem (by decide)

@[simp]
theorem isOneLine_toString (value : Nat) : IsOneLine (toString value) := by
  have hdigits : (toString value).toList = Nat.toDigits 10 value := Nat.toList_repr
  rw [IsOneLine, hdigits]
  exact (spells_toDigits (by decide) value).forall_mem (by decide)

/-- What a numbering with names and a label in one line writes is in one line. -/
theorem NameTable.isOneLine_print {table : NameTable} (hlabel : IsOneLine table.label)
    (hnames : ∀ entry ∈ table.names, IsOneLine entry.2) (value : Nat) :
    IsOneLine (table.print value) := by
  rw [print, name?]
  cases hname : table.names.lookup value with
  | none => exact isOneLine_append.2 ⟨hlabel, isOneLine_hex 4 value⟩
  | some name =>
      obtain ⟨front, back, heq, -⟩ := List.lookup_eq_some_iff.1 hname
      exact hnames (value, name) (by simp [heq])

@[simp]
theorem Register.isOneLine_text (register : Register) : IsOneLine register.text :=
  NameTable.isOneLine_print (by decide) (by decide +kernel) register.raw.toNat

@[simp]
theorem Command.isOneLine_text (command : Command) : IsOneLine command.text :=
  NameTable.isOneLine_print (by decide) (by decide +kernel) command.raw.toNat

/-- Whatever a diagnostic is about, it is written in one line. -/
theorem Diagnostic.isOneLine_text (diagnostic : Diagnostic) : IsOneLine diagnostic.text := by
  have hstatement : IsOneLine diagnostic.statement := by
    unfold statement
    cases diagnostic <;>
      simp only [isOneLine_append, isOneLine_toString, isOneLine_hex, Register.isOneLine_text,
        Command.isOneLine_text, and_true] <;>
      decide
  have hmark : IsOneLine diagnostic.mark := by
    unfold mark
    split
    · split <;> decide
    · decide
  exact isOneLine_append.2 ⟨hstatement, hmark⟩

theorem Event.isOneLine_text (event : Event) : IsOneLine event.text := by
  cases event with
  | bit address => exact address.isInline_of_mem_text
  | diagnostic found => exact isOneLine_append.2 ⟨by decide, found.isOneLine_text⟩

/-! ## What the lines say -/

/-- The line of a bit says the bit, and the line of a diagnostic nothing. -/
theorem Event.said?_text (event : Event) :
    said? event.text.toList = event.bit?.map BitAddress.text := by
  cases event with
  | bit address =>
      have hne : address.text.toList ≠ [] := by
        rw [address.toList_text]
        exact List.cons_ne_nil _ _
      refine (said?_of_forall hne address.isPlain_of_mem_text).trans ?_
      rw [String.ofList_toList]
      rfl
  | diagnostic found =>
      show said? (("# " ++ found.text).toList) = none
      rw [String.toList_append]
      exact said?_comment _

namespace Report

/-- The events that a listing shows. -/
def shown (report : Report) (comments : Bool) : List Event :=
  if comments then report.events else report.bits.map .bit

theorem toList_listing (report : Report) (comments : Bool) :
    (report.listing comments).toList =
      ((report.shown comments).map fun event => event.text.toList).flatMap fun line =>
        line ++ ['\n'] := by
  have hstep (text : String) (event : Event) : (text ++ event.text ++ "\n").toList =
      text.toList ++ (event.text.toList ++ ['\n']) := by
    simp
  rw [listing, toList_foldl hstep, List.flatMap_map]
  rfl

theorem bits_shown (report : Report) (comments : Bool) :
    (report.shown comments).filterMap Event.bit? = report.bits := by
  cases comments with
  | true => rfl
  | false =>
      rw [shown, if_neg Bool.false_ne_true, List.filterMap_map]
      exact List.filterMap_some

/-- The lines of a listing that say something are the bits, with and without comments. -/
theorem map_text_entries_listing (report : Report) (comments : Bool) :
    (entries (report.listing comments)).map Entry.text = report.bits.map BitAddress.text := by
  have hlines : ∀ line ∈ (report.shown comments).map fun event => event.text.toList,
      ∀ c ∈ line, IsInline c := by
    intro line hline
    obtain ⟨event, -, rfl⟩ := List.mem_map.1 hline
    exact event.isOneLine_text
  rw [map_text_entries, toList_listing, lines_flatMap hlines, List.filterMap_map]
  have hsaid : (said? ∘ fun event : Event => event.text.toList) =
      fun event => event.bit?.map BitAddress.text := funext Event.said?_text
  rw [hsaid, ← List.map_filterMap, bits_shown]

end Report

end ConfigStream
