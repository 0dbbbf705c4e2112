import ConfigStream.Bitstream.Basic
import ConfigStream.Proofs.Listing
import ConfigStream.Proofs.Steps

/-!
# Dumps read back

A dump has two lines about the bitstream, and then a line for every sixteen bytes (`IsRow`).
`readDump?` reads the bytes that such lines show. It gives the bytes of a bitstream from its dump,
whatever they are (`hexDump_lossless`).
-/

namespace ConfigStream.Bitstream

open Text

variable {bitstream : Bitstream} {offset index : Nat} {row data : List UInt8}

/-! ## Reading -/

/-- The bytes of two-digit hexadecimal numbers, each with a blank after it. -/
def readBytes? : List Char → Option (List UInt8)
  | [] => some []
  | high :: low :: ' ' :: rest => do
    let value ← natural? 16 256 [high, low]
    let bytes ← readBytes? rest
    pure (UInt8.ofNat value :: bytes)
  | _ => none

/-- The bytes that a line shows after a colon and a blank. -/
def readRow? (line : List Char) : Option (List UInt8) :=
  match cut? ':' line with
  | some (_, ' ' :: shown) => readBytes? shown
  | _ => none

/-- The bytes that the lines of a dump show after the first two. -/
def readDump? (dump : String) : Option (List UInt8) :=
  (((lines dump.toList).drop 2).mapM readRow?).map List.flatten

/-- A line that shows bytes: their offset in at least eight lower-case digits, a colon and a blank,
and the bytes as they are read. -/
def IsRow (offset : Nat) (bytes : List UInt8) (line : List Char) : Prop :=
  ∃ digits shown, line = digits ++ ':' :: ' ' :: shown ∧ 8 ≤ digits.length ∧
    (∀ c ∈ digits, c ∈ "0123456789abcdef".toList) ∧ Spells 16 digits offset ∧
    readBytes? shown = some bytes

/-! ## Rows -/

/-- The rows of some bytes are sixteen bytes each, except the last. -/
theorem rowsFrom_eq (done : Array (List UInt8)) (data : List UInt8) :
    rowsFrom done data = done.toList ++ (List.range ((data.length + 15) / 16)).map fun index =>
      (data.drop (rowLength * index)).take rowLength := by
  induction done, data using rowsFrom.induct with
  | case1 done => simp [rowsFrom]
  | case2 done byte rest ih =>
      have hcount : ((byte :: rest).length + 15) / 16 =
          ((rest.drop (rowLength - 1)).length + 15) / 16 + 1 := by
        rw [List.length_drop, List.length_cons, rowLength]
        omega
      rw [rowsFrom, ih, hcount, List.range_succ_eq_map, Array.toList_push, List.append_assoc,
        List.map_cons, List.map_map]
      refine congrArg (fun rows => done.toList ++ (byte :: rest.take (rowLength - 1)) :: rows)
        (List.map_congr_left fun index _ => ?_)
      have hdrop : rowLength * (index + 1) = rowLength - 1 + rowLength * index + 1 := by
        rw [rowLength]
        omega
      rw [Function.comp_apply, Nat.succ_eq_add_one, hdrop, List.drop_succ_cons, List.drop_drop]

/-- The rows hold the bytes in order. -/
theorem flatten_rowsFrom (done : Array (List UInt8)) (data : List UInt8) :
    (rowsFrom done data).flatten = done.toList.flatten ++ data := by
  induction done, data using rowsFrom.induct with
  | case1 done => simp [rowsFrom]
  | case2 done byte rest ih =>
      rw [rowsFrom, ih, Array.toList_push, List.flatten_append]
      simp

/-! ## Lines -/

/-- The characters of a byte in a row. -/
def byteText (byte : UInt8) : List Char := digits 16 2 byte.toNat ++ [' ']

theorem toList_dumpLine (offset : Nat) (row : List UInt8) :
    (dumpLine offset row).toList = digits 16 8 offset ++ ':' :: ' ' :: row.flatMap byteText := by
  have hstep (line : String) (byte : UInt8) : (line ++ hex 2 byte.toNat ++ " ").toList =
      line.toList ++ byteText byte := by
    simp [hex, byteText]
  rw [dumpLine, toList_foldl hstep]
  simp [hex]

/-- The lines of the rows. -/
def dumpRows (bitstream : Bitstream) : List (List Char) :=
  (rowsFrom #[] bitstream.data).zipIdx.map fun item =>
    (dumpLine (rowLength * item.2) item.1).toList

theorem toList_hexDump (bitstream : Bitstream) :
    bitstream.hexDump.toList =
      (".comment framewright bitstream for " ++ bitstream.part).toList ++
        '\n' :: (".binary_dump".toList ++ '\n' :: bitstream.dumpRows.flatMap (· ++ ['\n'])) := by
  have hstep (text : String) (item : List UInt8 × Nat) :
      (text ++ dumpLine (rowLength * item.2) item.1 ++ "\n").toList =
      text.toList ++ ((dumpLine (rowLength * item.2) item.1).toList ++ ['\n']) := by
    simp
  rw [hexDump, toList_foldl hstep, dumpRows, List.flatMap_map]
  simp

/-- No line of a row is broken. -/
theorem isInline_of_mem_dumpRows {line : List Char} (h : line ∈ bitstream.dumpRows) :
    ∀ c ∈ line, IsInline c := by
  obtain ⟨⟨row, index⟩, -, rfl⟩ := List.mem_map.1 h
  have hdigits (width value : Nat) : ∀ c ∈ digits 16 width value, IsInline c :=
    (spells_digits (by decide) width value).forall_mem (by decide)
  rw [toList_dumpLine]
  simp only [List.forall_mem_append, List.forall_mem_cons, List.mem_flatMap, byteText]
  refine ⟨hdigits _ _, by decide, by decide, ?_⟩
  rintro c ⟨byte, -, hmem⟩
  rcases List.mem_append.1 hmem with hmem | hmem
  · exact hdigits _ _ c hmem
  · rw [List.mem_singleton.1 hmem]
    decide

/-- A dump has two lines before those of its rows. -/
theorem lines_hexDump (hpart : '\n' ∉ bitstream.part.toList) :
    lines bitstream.hexDump.toList =
      finishLine (".comment framewright bitstream for " ++ bitstream.part).toList.reverse ::
        ".binary_dump".toList :: bitstream.dumpRows := by
  have hheading : '\n' ∉ (".comment framewright bitstream for " ++ bitstream.part).toList := by
    rw [String.toList_append, List.mem_append, not_or]
    exact ⟨by decide, hpart⟩
  rw [toList_hexDump, lines_append hheading, lines_append (by decide),
    lines_flatMap fun line => isInline_of_mem_dumpRows]
  rfl

/-! ## Reading rows -/

/-- The bytes of a row are read back. -/
theorem readBytes?_flatMap_byteText (row : List UInt8) :
    readBytes? (row.flatMap byteText) = some row := by
  induction row with
  | nil => rfl
  | cons byte row ih =>
      have hvalue : natural? 16 256 (digits 16 2 byte.toNat) = some byte.toNat :=
        (natural?_eq_some_iff (by decide) (by decide)).2
          ⟨spells_digits (by decide) 2 byte.toNat, byte.toNat_lt⟩
      have htwo : digits 16 2 byte.toNat = _ := digits_two (by decide) byte.toNat_lt
      rw [htwo] at hvalue
      rw [List.flatMap_cons, byteText, htwo]
      simp [readBytes?, hvalue, ih]

/-- A line of a dump shows its row at its offset. -/
theorem isRow_dumpLine (offset : Nat) (row : List UInt8) :
    IsRow offset row (dumpLine offset row).toList := by
  refine ⟨_, _, toList_dumpLine offset row, le_length_digits 16 8 offset, ?_,
    spells_digits (by decide) 8 offset, readBytes?_flatMap_byteText row⟩
  intro c hc
  have hlower : ∀ place < 16, place.digitChar ∈ "0123456789abcdef".toList := by decide
  obtain ⟨place, hplace, rfl⟩ := exists_digitChar_of_mem_digits (by decide) hc
  exact hlower place hplace

/-- What a line shows is read from it. -/
theorem IsRow.readRow?_eq {line : List Char} (h : IsRow offset row line) :
    readRow? line = some row := by
  obtain ⟨digits, shown, rfl, -, hdigits, -, hshown⟩ := h
  have hcolon : ':' ∉ digits := fun hmem => absurd (hdigits ':' hmem) (by decide)
  rw [readRow?, cut?_eq_some.2 ⟨rfl, hcolon⟩]
  exact hshown

/-- The line of a row shows sixteen bytes from its offset on, or what is left of them. -/
theorem isRow_of_getElem? {line : List Char} (h : bitstream.dumpRows[index]? = some line) :
    IsRow (rowLength * index)
      ((bitstream.data.drop (rowLength * index)).take rowLength) line := by
  simp only [dumpRows, rowsFrom_eq, List.nil_append, List.getElem?_map, List.getElem?_zipIdx,
    Option.map_eq_some_iff, Nat.zero_add] at h
  obtain ⟨_, ⟨_, ⟨place, hplace, rfl⟩, rfl⟩, rfl⟩ := h
  obtain ⟨_, rfl⟩ := List.getElem?_eq_some_iff.1 hplace
  rw [List.getElem_range]
  exact isRow_dumpLine _ _

theorem length_dumpRows (bitstream : Bitstream) :
    bitstream.dumpRows.length = (bitstream.data.length + 15) / 16 := by
  simp [dumpRows, rowsFrom_eq]

/-- The rows of a dump are read back. -/
theorem mapM_readRow?_dumpRows (bitstream : Bitstream) :
    bitstream.dumpRows.mapM readRow? = some (rowsFrom #[] bitstream.data) := by
  rw [mapM_eq_some, dumpRows, List.map_map]
  have hread : readRow? ∘ (fun item : List UInt8 × Nat =>
      (dumpLine (rowLength * item.2) item.1).toList) = some ∘ Prod.fst :=
    funext fun item => (isRow_dumpLine _ item.1).readRow?_eq
  rw [hread, ← List.map_map, List.zipIdx_map_fst]

/-- The bytes of a dump are read back. -/
theorem readDump?_hexDump (hpart : '\n' ∉ bitstream.part.toList) :
    readDump? bitstream.hexDump = some bitstream.data := by
  rw [readDump?, lines_hexDump hpart]
  show (bitstream.dumpRows.mapM readRow?).map List.flatten = _
  rw [mapM_readRow?_dumpRows, Option.map_some, flatten_rowsFrom]
  rfl

/-- No byte is lost in a dump. Under a line with the part, which is a single line if the name of the
part has no line feed, and a second line there is a line for every sixteen bytes. It shows their
offset and the bytes themselves, so that all bytes are read back, and bitstreams with other bytes
have other dumps. -/
theorem hexDump_lossless (bitstream : Bitstream) (hpart : '\n' ∉ bitstream.part.toList) :
    let comment := (".comment framewright bitstream for " ++ bitstream.part).toList
    ∃ heading rows,
      lines bitstream.hexDump.toList = heading :: ".binary_dump".toList :: rows ∧
      (heading = comment ∨ heading ++ ['\r'] = comment) ∧
      rows.length = (bitstream.data.length + 15) / 16 ∧
      (∀ index line, rows[index]? = some line →
        IsRow (16 * index) ((bitstream.data.drop (16 * index)).take 16) line) ∧
      readDump? bitstream.hexDump = some bitstream.data ∧
      ∀ other : Bitstream, '\n' ∉ other.part.toList → other.hexDump = bitstream.hexDump →
        other.data = bitstream.data := by
  intro comment
  refine ⟨_, _, lines_hexDump hpart, ?_, length_dumpRows bitstream,
    fun index line => isRow_of_getElem?, readDump?_hexDump hpart, ?_⟩
  · exact finishLine_reverse_cases comment
  · intro other hother hsame
    have hread := readDump?_hexDump hother
    rw [hsame, readDump?_hexDump hpart] at hread
    exact (Option.some.inj hread).symm

/-- Of twenty bytes the last four have a line of their own. -/
theorem hexDump_lossless_twoRows :
    let bitstream : Bitstream := { data := (List.range 20).map UInt8.ofNat, part := "part" }
    '\n' ∉ bitstream.part.toList ∧
      (lines bitstream.hexDump.toList).length = 4 ∧
      readDump? bitstream.hexDump = some bitstream.data ∧
      ∀ data, ({ bitstream with data } : Bitstream).hexDump = bitstream.hexDump →
        data = bitstream.data := by
  intro bitstream
  have hpart : '\n' ∉ bitstream.part.toList := by decide
  obtain ⟨heading, rows, hlines, -, hlength, -, hread, hsame⟩ := hexDump_lossless bitstream hpart
  refine ⟨hpart, ?_, hread, fun data => hsame { bitstream with data } hpart⟩
  have hcount : bitstream.data.length = 20 := by simp [bitstream]
  rw [hlines, List.length_cons, List.length_cons, hlength, hcount]

/-- The last line of that dump. -/
example : dumpLine 16 [16, 17, 18, 19] = "00000010: 10 11 12 13 " := by decide

end ConfigStream.Bitstream
