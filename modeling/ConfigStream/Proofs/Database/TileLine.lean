import ConfigStream.Database.Tile
import ConfigStream.Proofs.Steps
import ConfigStream.Proofs.Text.Numeral

/-!
# Lines of a tile list

A line of a tile list is told by its first word. What a header and a run have to look like is given
by a grammar (`Tile.HeaderSays`, `Tile.RunSays`), and so is what can be wrong with one
(`Tile.Malformed`). Reading a line follows them in both directions: `Tile.parse_eq_header`,
`Tile.parse_eq_run`, `Tile.parse_eq_other` and `Tile.parse_eq_error`.
-/

namespace ConfigStream.Tile

open Text (Entry)

variable {line : Entry} {text : String} {words : List (List Char)} {cause : LineFault} {said : Line}

/-! ## Words -/

/-- The words of a line. -/
def wordsOf (line : Entry) : List (List Char) := Text.fields line.text.toList

/-- A line whose first word is that of a header. -/
def IsHeader (line : Entry) : Prop := (wordsOf line).head? = some ".tile".toList

/-- A line whose first word is that of a run. -/
def IsRun (line : Entry) : Prop := (wordsOf line).head? = some "frame".toList

instance : DecidablePred IsHeader := fun line =>
  inferInstanceAs (Decidable ((wordsOf line).head? = some ".tile".toList))

instance : DecidablePred IsRun := fun line =>
  inferInstanceAs (Decidable ((wordsOf line).head? = some "frame".toList))

theorem not_isHeader_of_isRun (h : IsRun line) : ¬ IsHeader line := by
  intro hheader
  exact absurd (h.symm.trans hheader) (by decide)

theorem parse_of_isHeader (h : IsHeader line) :
    Line.parse line.text = headerLine line.text (wordsOf line) :=
  if_pos h

theorem parse_of_isRun (h : IsRun line) : Line.parse line.text = runLine line.text (wordsOf line) :=
  (if_neg (not_isHeader_of_isRun h)).trans (if_pos h)

theorem parse_of_other (hheader : ¬ IsHeader line) (hrun : ¬ IsRun line) :
    Line.parse line.text = .ok .other :=
  (if_neg hheader).trans (if_neg hrun)

/-! ## Numbers -/

/-- A way to write a coordinate, which has 32 bits. -/
def IsCoordinate (text : List Char) (value : Int) : Prop :=
  Text.WritesInteger text value ∧ -2 ^ 31 ≤ value ∧ value < 2 ^ 31

/-- A way to write an offset or a size, which have 64 bits. -/
def IsNumber (text : List Char) (value : Nat) : Prop := Text.Writes 10 text value ∧ value < 2 ^ 64

theorem coordinate_eq_ok {text : List Char} {value : Int} :
    coordinate text = .ok value ↔ IsCoordinate text value := by
  have hread := @Text.signed?_eq_some_iff text coordinateBound (by decide) value
  rw [IsCoordinate, ← show (coordinateBound : Int) = 2 ^ 31 from by decide, ← hread, coordinate]
  cases Text.signed? coordinateBound text <;> simp

theorem coordinate_eq_error {text : List Char} :
    coordinate text = .error cause ↔
      (∀ value, ¬ IsCoordinate text value) ∧ cause = .coordinate (String.ofList text) := by
  simp only [← coordinate_eq_ok, coordinate]
  cases Text.signed? coordinateBound text <;> simp [eq_comm]

theorem number_eq_ok {text : List Char} {value : Nat} :
    number text = .ok value ↔ IsNumber text value := by
  have hread := @Text.unsigned?_eq_some_iff 10 Text.limit64 value text (by decide) (by decide)
  rw [IsNumber, ← show Text.limit64 = 2 ^ 64 from by decide, ← hread, number]
  cases Text.unsigned? 10 Text.limit64 text <;> simp

theorem number_eq_error {text : List Char} :
    number text = .error cause ↔
      (∀ value, ¬ IsNumber text value) ∧ cause = .number (String.ofList text) := by
  simp only [← number_eq_ok, number]
  cases Text.unsigned? 10 Text.limit64 text <;> simp [eq_comm]

/-! ## Headers -/

/-- The words of a header say the name, the type and the place of a tile. -/
inductive HeaderSays : List (List Char) → Tile → Prop where
  | intro {first name type x y : List Char} {more : List (List Char)} {left top : Int}
      {runs : List BitRun} (hx : IsCoordinate x left) (hy : IsCoordinate y top) :
      HeaderSays (first :: name :: type :: x :: y :: more)
        ⟨String.ofList name, String.ofList type, left, top, runs⟩

/-- What is wrong with the words of a header. -/
inductive HeaderFault (text : String) : List (List Char) → LineFault → Prop where
  | short {words : List (List Char)} (hshort : words.length < 5) :
      HeaderFault text words (.tileHeader text)
  | x {first name type x y : List Char} {more : List (List Char)}
      (hx : ∀ value, ¬ IsCoordinate x value) :
      HeaderFault text (first :: name :: type :: x :: y :: more) (.coordinate (String.ofList x))
  | y {first name type x y : List Char} {more : List (List Char)} {left : Int}
      (hx : IsCoordinate x left) (hy : ∀ value, ¬ IsCoordinate y value) :
      HeaderFault text (first :: name :: type :: x :: y :: more) (.coordinate (String.ofList y))

theorem headerLine_eq_ok :
    headerLine text words = .ok said ↔
      ∃ tile, said = .header tile ∧ HeaderSays words tile ∧ tile.runs = [] := by
  constructor
  · intro h
    unfold headerLine at h
    split at h
    · obtain ⟨left, hx, h⟩ := Except.bind_eq_ok.1 h
      obtain ⟨top, hy, h⟩ := Except.bind_eq_ok.1 h
      exact ⟨_, (Except.ok.inj h).symm, .intro (coordinate_eq_ok.1 hx) (coordinate_eq_ok.1 hy), rfl⟩
    · cases h
  · intro h
    obtain ⟨tile, rfl, htold, hruns⟩ := h
    cases htold with
    | intro hx hy =>
        obtain rfl : _ = [] := hruns
        rw [headerLine, coordinate_eq_ok.2 hx, coordinate_eq_ok.2 hy]
        rfl

theorem headerLine_eq_error :
    headerLine text words = .error cause ↔ HeaderFault text words cause := by
  constructor
  · intro h
    unfold headerLine at h
    split at h
    · rcases Except.bind_eq_error.1 h with hfails | ⟨left, hleft, h⟩
      · obtain ⟨hx, rfl⟩ := coordinate_eq_error.1 hfails
        exact .x hx
      · rcases Except.bind_eq_error.1 h with hfails | ⟨top, -, h⟩
        · obtain ⟨hy, rfl⟩ := coordinate_eq_error.1 hfails
          exact .y (coordinate_eq_ok.1 hleft) hy
        · cases h
    · rename_i hshape
      obtain rfl := Except.error.inj h
      match words, hshape with
      | [], _ | [_], _ | [_, _], _ | [_, _, _], _ | [_, _, _, _], _ => exact .short (by simp)
      | first :: name :: type :: x :: y :: more, hshape => exact absurd rfl (hshape _ _ _ _ _ _)
  · intro h
    cases h with
    | short hshort =>
        unfold headerLine
        split
        · simp only [List.length_cons] at hshort
          omega
        · rfl
    | x hx =>
        rw [headerLine, coordinate_eq_error.2 ⟨hx, rfl⟩]
        rfl
    | y hx hy =>
        rw [headerLine, coordinate_eq_ok.2 hx, coordinate_eq_error.2 ⟨hy, rfl⟩]
        rfl

/-! ## Runs -/

/-- The words of a run say its frame, its offset and its size, and it lies in a frame. -/
inductive RunSays : List (List Char) → BitRun → Prop where
  | intro {first address middle offset last size : List Char} {more : List (List Char)}
      {run : BitRun} (haddress : Text.BeginsWith address run.frame.toNat)
      (hoffset : IsNumber offset run.offset) (hsize : IsNumber size run.size)
      (hinside : run.offset + run.size ≤ Frame.bitCount) :
      RunSays (first :: address :: middle :: offset :: last :: size :: more) run

/-- What is wrong with the words of a run, the first of several things. -/
inductive RunFault (text : String) : List (List Char) → LineFault → Prop where
  | short {words : List (List Char)} (hshort : words.length < 6) :
      RunFault text words (.frameRun text)
  | address {first address middle offset last size : List Char} {more : List (List Char)}
      (haddress : ∀ frame : UInt32, ¬ Text.BeginsWith address frame.toNat) :
      RunFault text (first :: address :: middle :: offset :: last :: size :: more)
        (.address (String.ofList address))
  | offset {first address middle offset last size : List Char} {more : List (List Char)}
      {frame : UInt32} (haddress : Text.BeginsWith address frame.toNat)
      (hoffset : ∀ value, ¬ IsNumber offset value) :
      RunFault text (first :: address :: middle :: offset :: last :: size :: more)
        (.number (String.ofList offset))
  | size {first address middle offset last size : List Char} {more : List (List Char)}
      {frame : UInt32} {start : Nat} (haddress : Text.BeginsWith address frame.toNat)
      (hoffset : IsNumber offset start) (hsize : ∀ value, ¬ IsNumber size value) :
      RunFault text (first :: address :: middle :: offset :: last :: size :: more)
        (.number (String.ofList size))
  | tooLong {first address middle offset last size : List Char} {more : List (List Char)}
      {frame : UInt32} {start length : Nat} (haddress : Text.BeginsWith address frame.toNat)
      (hoffset : IsNumber offset start) (hsize : IsNumber size length)
      (hlong : Frame.bitCount < start + length) :
      RunFault text (first :: address :: middle :: offset :: last :: size :: more)
        (.runTooLong start length)

theorem runLine_eq_ok :
    runLine text words = .ok said ↔ ∃ run, said = .run run ∧ RunSays words run := by
  constructor
  · intro h
    unfold runLine at h
    split at h
    · split at h
      · cases h
      · rename_i frame haddress
        obtain ⟨start, hoffset, h⟩ := Except.bind_eq_ok.1 h
        obtain ⟨length, hsize, h⟩ := Except.bind_eq_ok.1 h
        split at h
        · rename_i hinside
          exact ⟨⟨frame, start, length⟩, (Except.ok.inj h).symm,
            .intro (Text.leadingHex?_eq_some_iff.1 haddress) (number_eq_ok.1 hoffset)
              (number_eq_ok.1 hsize) hinside⟩
        · cases h
    · cases h
  · intro h
    obtain ⟨run, rfl, htold⟩ := h
    cases htold with
    | intro haddress hoffset hsize hinside =>
        simp only [runLine, Text.leadingHex?_eq_some_iff.2 haddress, number_eq_ok.2 hoffset,
          number_eq_ok.2 hsize]
        exact if_pos hinside

/-- No address is read where a text begins with none. -/
theorem leadingHex?_eq_none {text : List Char} :
    Text.leadingHex? text = none ↔ ∀ frame : UInt32, ¬ Text.BeginsWith text frame.toNat := by
  simp only [← Text.leadingHex?_eq_some_iff, Option.eq_none_iff_forall_ne_some, ne_eq]

theorem runLine_eq_error : runLine text words = .error cause ↔ RunFault text words cause := by
  constructor
  · intro h
    unfold runLine at h
    split at h
    · split at h
      · rename_i haddress
        obtain rfl := Except.error.inj h
        exact .address (leadingHex?_eq_none.1 haddress)
      · rename_i frame haddress
        have haddress := Text.leadingHex?_eq_some_iff.1 haddress
        rcases Except.bind_eq_error.1 h with hfails | ⟨start, hstart, h⟩
        · obtain ⟨hoffset, rfl⟩ := number_eq_error.1 hfails
          exact .offset haddress hoffset
        · have hoffset := number_eq_ok.1 hstart
          rcases Except.bind_eq_error.1 h with hfails | ⟨length, hlength, h⟩
          · obtain ⟨hsize, rfl⟩ := number_eq_error.1 hfails
            exact .size haddress hoffset hsize
          · split at h
            · cases h
            · rename_i houtside
              obtain rfl := Except.error.inj h
              exact .tooLong haddress hoffset (number_eq_ok.1 hlength) (Nat.lt_of_not_le houtside)
    · rename_i hshape
      obtain rfl := Except.error.inj h
      match words, hshape with
      | [], _ | [_], _ | [_, _], _ | [_, _, _], _ | [_, _, _, _], _ | [_, _, _, _, _], _ =>
          exact .short (by simp)
      | first :: address :: middle :: offset :: last :: size :: more, hshape =>
          exact absurd rfl (hshape _ _ _ _ _ _ _)
  · intro h
    cases h with
    | short hshort =>
        unfold runLine
        split
        · simp only [List.length_cons] at hshort
          omega
        · rfl
    | address haddress => simp only [runLine, leadingHex?_eq_none.2 haddress]
    | offset haddress hoffset =>
        simp only [runLine, Text.leadingHex?_eq_some_iff.2 haddress,
          number_eq_error.2 ⟨hoffset, rfl⟩]
        rfl
    | size haddress hoffset hsize =>
        simp only [runLine, Text.leadingHex?_eq_some_iff.2 haddress, number_eq_ok.2 hoffset,
          number_eq_error.2 ⟨hsize, rfl⟩]
        rfl
    | tooLong haddress hoffset hsize hlong =>
        simp only [runLine, Text.leadingHex?_eq_some_iff.2 haddress, number_eq_ok.2 hoffset,
          number_eq_ok.2 hsize]
        exact if_neg (Nat.not_le_of_lt hlong)

/-! ## Lines -/

/-- What is wrong with a line by itself. -/
def Malformed (line : Entry) (cause : LineFault) : Prop :=
  (IsHeader line ∧ HeaderFault line.text (wordsOf line) cause) ∨
    (IsRun line ∧ RunFault line.text (wordsOf line) cause)

/-- A line is read as a header if and only if its words say one. -/
theorem parse_eq_header {tile : Tile} :
    Line.parse line.text = .ok (.header tile) ↔
      IsHeader line ∧ HeaderSays (wordsOf line) tile ∧ tile.runs = [] := by
  by_cases hheader : IsHeader line
  · rw [parse_of_isHeader hheader, headerLine_eq_ok]
    simp [hheader]
  · by_cases hrun : IsRun line
    · rw [parse_of_isRun hrun, runLine_eq_ok]
      simp [hheader]
    · rw [parse_of_other hheader hrun]
      simp [hheader]

/-- A line is read as a run if and only if its words say one. -/
theorem parse_eq_run {run : BitRun} :
    Line.parse line.text = .ok (.run run) ↔ IsRun line ∧ RunSays (wordsOf line) run := by
  by_cases hrun : IsRun line
  · rw [parse_of_isRun hrun, runLine_eq_ok]
    simp [hrun]
  · by_cases hheader : IsHeader line
    · rw [parse_of_isHeader hheader, headerLine_eq_ok]
      simp [hrun]
    · rw [parse_of_other hheader hrun]
      simp [hrun]

/-- A line does not count if and only if it has another first word. -/
theorem parse_eq_other :
    Line.parse line.text = .ok .other ↔ ¬ IsHeader line ∧ ¬ IsRun line := by
  by_cases hheader : IsHeader line
  · rw [parse_of_isHeader hheader, headerLine_eq_ok]
    simp [hheader]
  · by_cases hrun : IsRun line
    · rw [parse_of_isRun hrun, runLine_eq_ok]
      simp [hrun]
    · rw [parse_of_other hheader hrun]
      simp [hheader, hrun]

/-- A line cannot be read if and only if something is wrong with it. -/
theorem parse_eq_error : Line.parse line.text = .error cause ↔ Malformed line cause := by
  unfold Malformed
  by_cases hheader : IsHeader line
  · have hrun : ¬ IsRun line := fun hrun => not_isHeader_of_isRun hrun hheader
    rw [parse_of_isHeader hheader, headerLine_eq_error]
    simp [hheader, hrun]
  · by_cases hrun : IsRun line
    · rw [parse_of_isRun hrun, runLine_eq_error]
      simp [hheader, hrun]
    · rw [parse_of_other hheader hrun]
      simp [hheader, hrun]

end ConfigStream.Tile
