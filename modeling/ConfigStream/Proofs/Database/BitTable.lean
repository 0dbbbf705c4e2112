import ConfigStream.Database.BitTable
import ConfigStream.Proofs.Steps

/-!
# What a bit table lists

A table that can be read has, for each feature, the bits of all lines that begin with it and no
others (`BitTable.mem_bits?_parse`). A feature is known if a line begins with it, even if no bit
follows on any.
-/

namespace ConfigStream

namespace BitTable

/-- A line of a table lists a bit for a feature: its first field is the feature, and one of the
others is the bit in decimal digits. -/
def Lists (text : String) (feature : List Char) (bit : Nat) : Prop :=
  ∃ line ∈ Text.entries text, ∃ fields, Text.fields line.text.toList = feature :: fields ∧
    ∃ field ∈ fields, Text.unsigned? 10 Text.limit64 field = some bit

variable {feature : String}

theorem bits?_prepend (said : String × List Nat) (table : BitTable) (feature : String) :
    (prepend said table).bits? feature =
      if said.1 = feature then some (said.2 ++ (table.bits? feature).getD [])
      else table.bits? feature := by
  simp only [prepend, bits?, Std.ExtTreeMap.getElem?_insert, Std.compare_eq_iff_eq]
  by_cases h : said.1 = feature <;> simp [h]

/-- A table has the bits of all its lines. -/
theorem mem_bits?_ofLines (lines : List (Option (String × List Nat))) (bit : Nat) :
    bit ∈ ((ofLines lines).bits? feature).getD [] ↔
      ∃ bits, some (feature, bits) ∈ lines ∧ bit ∈ bits := by
  induction lines with
  | nil => simp [ofLines, empty, bits?]
  | cons line lines ih =>
      cases line with
      | none =>
          rw [show ofLines (none :: lines) = ofLines lines from rfl, ih]
          simp
      | some said =>
          rw [show ofLines (some said :: lines) = prepend said (ofLines lines) from rfl,
            bits?_prepend]
          by_cases h : said.1 = feature
          · obtain ⟨name, bits⟩ := said
            obtain rfl : name = feature := h
            rw [if_pos rfl, Option.getD_some, List.mem_append, ih]
            simp [or_and_right, exists_or]
          · have hne (bits : List Nat) : (feature, bits) ≠ said := fun heq => h (heq ▸ rfl)
            rw [if_neg h, ih]
            simp [hne]

/-- A field that is a bit is read as decimal digits. -/
theorem bit_eq_ok {field : List Char} {bit : Nat} :
    BitTable.bit feature field = .ok bit ↔ Text.unsigned? 10 Text.limit64 field = some bit := by
  unfold BitTable.bit
  cases Text.unsigned? 10 Text.limit64 field <;> simp

/-- A line that begins with a feature says bits of it. -/
theorem line_of_fields {text : String} {fields : List (List Char)}
    (h : Text.fields text.toList = feature.toList :: fields)
    {said : Option (String × List Nat)} :
    line text = .ok said ↔
      ∃ bits, fields.mapM (BitTable.bit feature) = .ok bits ∧ some (feature, bits) = said := by
  rw [line, h]
  simp only [String.ofList_toList, Except.map_eq_ok]

/-- A line that says bits of a feature begins with the feature. -/
theorem fields_of_line {text : String} {bits : List Nat}
    (h : line text = .ok (some (feature, bits))) :
    ∃ fields, Text.fields text.toList = feature.toList :: fields := by
  unfold line at h
  cases hfields : Text.fields text.toList with
  | nil =>
      rw [hfields] at h
      cases h
  | cons name fields =>
      rw [hfields] at h
      obtain ⟨read, -, hread⟩ := Except.map_eq_ok.1 h
      obtain ⟨hname, -⟩ := Prod.mk.inj (Option.some.inj hread)
      exact ⟨fields, by rw [← hname, String.toList_ofList]⟩

theorem readLine_eq_ok {path : String} {entry : Text.Entry}
    {said : Option (String × List Nat)} :
    readLine path entry = .ok said ↔ line entry.text = .ok said := by
  unfold readLine
  cases line entry.text <;> simp [Except.mapError]

/-- The bits that a line says are those of its fields. -/
theorem mem_bits_iff {fields : List (List Char)} {bits : List Nat}
    (h : fields.mapM (BitTable.bit feature) = .ok bits) {bit : Nat} :
    bit ∈ bits ↔ ∃ field ∈ fields, Text.unsigned? 10 Text.limit64 field = some bit := by
  rw [mem_iff_of_map_eq (fun _ _ => Except.ok.inj) (Except.mapM_eq_ok.1 h)]
  simp only [bit_eq_ok]

/-- A table that has been read has the bits that its lines list. -/
theorem mem_bits?_parse {path text : String} {table : BitTable}
    (h : parse path text = .ok table) (feature : String) (bit : Nat) :
    bit ∈ (table.bits? feature).getD [] ↔ Lists text feature.toList bit := by
  obtain ⟨said, hsaid, rfl⟩ := Except.map_eq_ok.1 h
  rw [Except.mapM_eq_ok] at hsaid
  rw [mem_bits?_ofLines]
  constructor
  · rintro ⟨bits, hbits, hbit⟩
    obtain ⟨entry, hentry, hread⟩ := (mem_iff_of_map_eq (fun _ _ => Except.ok.inj) hsaid).1 hbits
    have hline := readLine_eq_ok.1 hread
    obtain ⟨fields, hfields⟩ := fields_of_line hline
    obtain ⟨found, hfound, hsame⟩ := (line_of_fields hfields).1 hline
    obtain ⟨-, rfl⟩ := Prod.mk.inj (Option.some.inj hsame)
    exact ⟨entry, hentry, fields, hfields, (mem_bits_iff hfound).1 hbit⟩
  · rintro ⟨entry, hentry, fields, hfields, hfield⟩
    -- The table has been read, and so have all bits of the line.
    obtain ⟨result, hresult, hread⟩ := exists_of_map_eq hsaid hentry
    obtain ⟨bits, hbits, rfl⟩ := (line_of_fields hfields).1 (readLine_eq_ok.1 hread)
    exact ⟨bits, hresult, (mem_bits_iff hbits).2 hfield⟩

end BitTable

end ConfigStream
