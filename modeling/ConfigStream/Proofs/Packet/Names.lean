import ConfigStream.Packet.Command
import ConfigStream.Proofs.Text.Numeral
import Mathlib.Data.List.Nodup

/-!
# Named numbers read back

A numbering can be read back if its names and its values are told apart and no name begins with the
label (`NameTable.Readable`). Then a text is a name or a labelled number, but never both
(`NameTable.Readable.value?_eq_none_or`), and reading inverts printing
(`NameTable.Readable.parse?_print`). Registers and commands are numbered in this way
(`names_read_back`).
-/

namespace ConfigStream

namespace NameTable

variable {table : NameTable} {value : Nat} {name text : String}

/-- Names and values stand for each other, values are below the limit, and no name begins with the
label. -/
structure Readable (table : NameTable) : Prop where
  values : (table.names.map Prod.fst).Nodup
  names : (table.names.map Prod.snd).Nodup
  fit : ∀ entry ∈ table.names, entry.1 < table.limit
  unlabelled : ∀ entry ∈ table.names, ¬ table.label.toList <+: entry.2.toList

/-- The label with a hexadecimal number after it. Letters stand in either case, and a plus sign may
lead the digits. -/
def Labels (table : NameTable) (text : String) (value : Nat) : Prop :=
  ∃ digits, text.toList = table.label.toList ++ digits ∧ Text.Writes 16 digits value

/-- The name of a value is the one listed with it. -/
theorem Readable.name?_eq_some_iff (h : table.Readable) :
    table.name? value = some name ↔ (value, name) ∈ table.names := by
  have hlisted {found : String} (hfound : table.name? value = some found) :
      (value, found) ∈ table.names := by
    obtain ⟨before, after, hnames, -⟩ := List.lookup_eq_some_iff.1 hfound
    rw [hnames]
    exact List.mem_append_right _ List.mem_cons_self
  refine ⟨hlisted, fun hmem => ?_⟩
  cases hfound : table.name? value with
  | none =>
      have hnone := List.lookup_eq_none_iff.1 hfound _ hmem
      simp at hnone
  | some found =>
      obtain ⟨-, rfl⟩ :=
        Prod.mk.inj (List.inj_on_of_nodup_map h.values (hlisted hfound) hmem rfl)
      rfl

/-- The value of a name is the one listed with it. -/
theorem Readable.value?_eq_some_iff (h : table.Readable) :
    table.value? name = some value ↔ (value, name) ∈ table.names := by
  unfold value?
  rw [Option.map_eq_some_iff]
  constructor
  · rintro ⟨⟨found, other⟩, hfound, rfl⟩
    have hname : other = name := by simpa using List.find?_some hfound
    exact hname ▸ List.mem_of_find?_eq_some hfound
  · intro hmem
    cases hfound : table.names.find? fun entry => entry.2 == name with
    | none =>
        have hnone := List.find?_eq_none.1 hfound _ hmem
        simp at hnone
    | some found =>
        have hname : found.2 = name := by simpa using List.find?_some hfound
        have hsame := List.inj_on_of_nodup_map h.names (List.mem_of_find?_eq_some hfound) hmem hname
        exact ⟨found, rfl, congrArg Prod.fst hsame⟩

/-- Exactly the labelled numbers below the limit are read as such. -/
theorem labelled?_eq_some_iff (hlimit : 0 < table.limit) :
    table.labelled? text = some value ↔ table.Labels text value ∧ value < table.limit := by
  have hlength : table.label.length = table.label.toList.length := String.length_toList.symm
  unfold labelled? Labels
  split
  · rename_i hlabel
    obtain ⟨digits, hdigits⟩ := List.isPrefixOf_iff_prefix.1 hlabel
    have hdrop : text.toList.drop table.label.length = digits := by
      rw [← hdigits, hlength, List.drop_left]
    rw [hdrop, Text.unsigned?_eq_some_iff (by decide) hlimit, ← hdigits]
    simp
  · rename_i hlabel
    refine iff_of_false (by simp) ?_
    rintro ⟨⟨digits, hdigits, -⟩, -⟩
    exact hlabel (List.isPrefixOf_iff_prefix.2 ⟨digits, hdigits.symm⟩)

/-- No text is both a name and a labelled number. -/
theorem Readable.value?_eq_none_or (h : table.Readable) (text : String) :
    table.value? text = none ∨ table.labelled? text = none := by
  cases hvalue : table.value? text with
  | none => exact .inl rfl
  | some value =>
      refine .inr (if_neg ?_)
      rw [List.isPrefixOf_iff_prefix]
      exact h.unlabelled _ (h.value?_eq_some_iff.1 hvalue)

/-- What is read is a listed name or a labelled number. -/
theorem Readable.parse?_eq_some_iff (h : table.Readable) (hlimit : 0 < table.limit) :
    table.parse? text = some value ↔
      (value, text) ∈ table.names ∨ table.Labels text value ∧ value < table.limit := by
  rw [← h.value?_eq_some_iff, ← labelled?_eq_some_iff hlimit, parse?]
  rcases h.value?_eq_none_or text with hnone | hnone
  · simp [hnone]
  · simp [hnone]

/-- What is read is below the limit. -/
theorem Readable.lt_limit (h : table.Readable) (hlimit : 0 < table.limit)
    (hparse : table.parse? text = some value) : value < table.limit := by
  rcases (h.parse?_eq_some_iff hlimit).1 hparse with hmem | ⟨-, hlt⟩
  · exact h.fit _ hmem
  · exact hlt

/-- The written form of a value is its name or a labelled number. -/
theorem Readable.print_cases (h : table.Readable) (value : Nat) :
    (value, table.print value) ∈ table.names ∨ table.Labels (table.print value) value := by
  unfold print
  cases hname : table.name? value with
  | some name => exact .inl (h.name?_eq_some_iff.1 hname)
  | none =>
      refine .inr ⟨Text.digits 16 4 value, ?_, .bare (Text.spells_digits (by decide) 4 value)⟩
      simp [Text.hex]

/-- Reading the written form of a value gives the value. -/
theorem Readable.parse?_print (h : table.Readable) (hvalue : value < table.limit) :
    table.parse? (table.print value) = some value := by
  rw [h.parse?_eq_some_iff (Nat.zero_lt_of_lt hvalue)]
  exact (h.print_cases value).imp_right fun hlabels => ⟨hlabels, hvalue⟩

end NameTable

/-! ## Registers and commands -/

namespace Register

theorem readable_table : table.Readable where
  values := by decide
  names := by decide
  fit := by decide
  unlabelled := by decide

/-- A register is read where its number is. -/
theorem parse?_eq_some_iff {text : String} {register : Register} :
    parse? text = some register ↔ table.parse? text = some register.raw.toNat := by
  rw [parse?, Option.map_eq_some_iff]
  constructor
  · rintro ⟨value, hvalue, rfl⟩
    have hlt : value < 2 ^ 16 := readable_table.lt_limit (by decide) hvalue
    rwa [UInt16.toNat_ofNat_of_lt' hlt]
  · exact fun h => ⟨_, h, by rw [UInt16.ofNat_toNat]⟩

/-- The registers that a text is read as: the one with this name, or with this number after the
label. -/
theorem parse?_eq_some_iff_names {text : String} {register : Register} :
    parse? text = some register ↔ (register.raw.toNat, text) ∈ table.names ∨
      table.Labels text register.raw.toNat := by
  have hlt : register.raw.toNat < table.limit := register.raw.toNat_lt
  rw [parse?_eq_some_iff, readable_table.parse?_eq_some_iff (by decide), and_iff_left hlt]

/-- Reading the written form of a register gives the register. -/
theorem parse?_text (register : Register) : parse? register.text = some register :=
  parse?_eq_some_iff.2 (readable_table.parse?_print register.raw.toNat_lt)

/-- No two registers are written alike. -/
theorem text_injective : Function.Injective text := by
  intro first second h
  have hread := parse?_text first
  rw [h, parse?_text] at hread
  exact (Option.some.inj hread).symm

end Register

namespace Command

theorem readable_table : table.Readable where
  values := by decide
  names := by decide
  fit := by decide
  unlabelled := by decide

/-- A command is read where its number is. -/
theorem parse?_eq_some_iff {text : String} {command : Command} :
    parse? text = some command ↔ table.parse? text = some command.raw.toNat := by
  rw [parse?, Option.map_eq_some_iff]
  constructor
  · rintro ⟨value, hvalue, rfl⟩
    have hlt : value < 2 ^ 32 := readable_table.lt_limit (by decide) hvalue
    rwa [UInt32.toNat_ofNat_of_lt' hlt]
  · exact fun h => ⟨_, h, by rw [UInt32.ofNat_toNat]⟩

/-- The commands that a text is read as: the one with this name, or with this number after the
label. -/
theorem parse?_eq_some_iff_names {text : String} {command : Command} :
    parse? text = some command ↔ (command.raw.toNat, text) ∈ table.names ∨
      table.Labels text command.raw.toNat := by
  have hlt : command.raw.toNat < table.limit := command.raw.toNat_lt
  rw [parse?_eq_some_iff, readable_table.parse?_eq_some_iff (by decide), and_iff_left hlt]

/-- Reading the written form of a command gives the command. -/
theorem parse?_text (command : Command) : parse? command.text = some command :=
  parse?_eq_some_iff.2 (readable_table.parse?_print command.raw.toNat_lt)

/-- No two commands are written alike. -/
theorem text_injective : Function.Injective text := by
  intro first second h
  have hread := parse?_text first
  rw [h, parse?_text] at hread
  exact (Option.some.inj hread).symm

end Command

/-- Registers and commands are read back from their written form, whatever their number is, so that
no two numbers are written alike. The texts that are read are the names and the labelled numbers,
and no text is both. -/
theorem names_read_back :
    (∀ raw : UInt16, Register.parse? (Register.text ⟨raw⟩) = some ⟨raw⟩) ∧
      (∀ raw : UInt32, Command.parse? (Command.text ⟨raw⟩) = some ⟨raw⟩) ∧
      Function.Injective Register.text ∧ Function.Injective Command.text ∧
      (∀ text register, Register.parse? text = some register ↔
        (register.raw.toNat, text) ∈ Register.table.names ∨
          Register.table.Labels text register.raw.toNat) ∧
      (∀ text command, Command.parse? text = some command ↔
        (command.raw.toNat, text) ∈ Command.table.names ∨
          Command.table.Labels text command.raw.toNat) ∧
      (∀ text, Register.table.value? text = none ∨ Register.table.labelled? text = none) ∧
      ∀ text, Command.table.value? text = none ∨ Command.table.labelled? text = none := by
  refine ⟨fun raw => Register.parse?_text ⟨raw⟩, fun raw => Command.parse?_text ⟨raw⟩,
    Register.text_injective, Command.text_injective,
    fun _ _ => Register.parse?_eq_some_iff_names, fun _ _ => Command.parse?_eq_some_iff_names,
    Register.readable_table.value?_eq_none_or, Command.readable_table.value?_eq_none_or⟩

/-- A register with a name can be given by its number, with a sign and any zeros. -/
example : Register.parse? "reg+00002" = Register.parse? "FDRI" := by decide

end ConfigStream
