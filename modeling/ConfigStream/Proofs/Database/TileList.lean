import ConfigStream.Proofs.Database.TileLine
import ConfigStream.Proofs.Database.Tiles
import ConfigStream.Proofs.Text.Lines

/-!
# Tile lists

The lines of a tile list that is read follow a grammar (`Tile.Describes`): a header is followed by
the runs of its tile, and runs without a header come at most at the front. So a tile is what the
last header of its name says, with the runs up to the next header of any name (`Tile.SaidBy`). A
list that is not read fails at the first line that is wrong by itself or as the first run without a
header (`Tile.FirstWrong`). Both are put together in `Tiles.parse_meaning`.
-/

namespace ConfigStream.Tile

open Text (Entry)

variable {path text : String} {line : Entry} {lines before after : List Entry}
  {start middle last : Array Line} {said : Line} {cause : LineFault} {fault : DatabaseFault}
  {tile : Tile} {runs : List BitRun} {tiles front back : List Tile}

/-! ## Steps -/

theorem addLine_eq_ok :
    addLine path start line = .ok last ↔
      ∃ said, Line.parse line.text = .ok said ∧ Line.addTo start said = .ok last :=
  Except.mapError_eq_ok.trans Except.bind_eq_ok

/-- What a line that is read adds to those before it. -/
inductive Adds (start : Array Line) (line : Entry) : Array Line → Prop where
  | header {tile : Tile} (hheader : IsHeader line) (htold : HeaderSays (wordsOf line) tile) :
      Adds start line (start.push (.header tile))
  | run {run : BitRun} (hrun : IsRun line) (htold : RunSays (wordsOf line) run)
      (hstart : start.isEmpty = false) : Adds start line (start.push (.run run))
  | other (hheader : ¬ IsHeader line) (hrun : ¬ IsRun line) : Adds start line start

theorem adds_of_addLine (h : addLine path start line = .ok last) : Adds start line last := by
  obtain ⟨said, hparse, hadd⟩ := addLine_eq_ok.1 h
  cases said with
  | header tile =>
      obtain rfl := Except.ok.inj hadd
      obtain ⟨hheader, htold, -⟩ := parse_eq_header.1 hparse
      exact .header hheader htold
  | run added =>
      rw [Line.addTo] at hadd
      split at hadd
      · cases hadd
      · rename_i hstart
        obtain rfl := Except.ok.inj hadd
        obtain ⟨hrun, htold⟩ := parse_eq_run.1 hparse
        exact .run hrun htold (Bool.eq_false_iff.2 hstart)
  | other =>
      obtain rfl := Except.ok.inj hadd
      obtain ⟨hheader, hrun⟩ := parse_eq_other.1 hparse
      exact .other hheader hrun

/-- Only a run in front of all headers cannot be added. -/
theorem addTo_eq_error :
    Line.addTo start said = .error cause ↔
      (∃ run, said = .run run) ∧ start.isEmpty = true ∧ cause = .runOutsideTile := by
  cases said with
  | header tile => simp [Line.addTo]
  | run added =>
      rw [Line.addTo]
      cases start.isEmpty <;> simp [eq_comm]
  | other => simp [Line.addTo]

/-! ## The grammar -/

/-- The runs at the front of a tile list, which lack a header, and the tiles after them. -/
inductive Describes : List Entry → List BitRun → List Tile → Prop where
  | nil : Describes [] [] []
  | header {line : Entry} {lines : List Entry} {tile : Tile} {tiles : List Tile}
      (hheader : IsHeader line) (htold : HeaderSays (wordsOf line) tile)
      (hlines : Describes lines tile.runs tiles) : Describes (line :: lines) [] (tile :: tiles)
  | run {line : Entry} {lines : List Entry} {run : BitRun} {runs : List BitRun} {tiles : List Tile}
      (hrun : IsRun line) (htold : RunSays (wordsOf line) run)
      (hlines : Describes lines runs tiles) : Describes (line :: lines) (run :: runs) tiles
  | other {line : Entry} {lines : List Entry} {runs : List BitRun} {tiles : List Tile}
      (hheader : ¬ IsHeader line) (hrun : ¬ IsRun line)
      (hlines : Describes lines runs tiles) : Describes (line :: lines) runs tiles

/-- A header says nothing of runs. -/
theorem HeaderSays.withRuns {words : List (List Char)} (h : HeaderSays words tile)
    (runs : List BitRun) : HeaderSays words { tile with runs } := by
  cases h with
  | intro hx hy => exact .intro hx hy

/-- Lines that are read follow the grammar. -/
theorem describes_of_foldlM (h : lines.foldlM (addLine path) start = .ok last) :
    ∃ said runs tiles, last.toList = start.toList ++ said ∧
      said.foldr Line.prepend ([], []) = (runs, tiles) ∧ Describes lines runs tiles := by
  induction lines generalizing start with
  | nil =>
      obtain rfl := Except.ok.inj h
      exact ⟨[], [], [], (List.append_nil _).symm, rfl, .nil⟩
  | cons line lines ih =>
      rw [List.foldlM_cons] at h
      obtain ⟨next, hnext, hrest⟩ := Except.bind_eq_ok.1 h
      obtain ⟨said, runs, tiles, hlast, hsaid, hlines⟩ := ih hrest
      cases adds_of_addLine hnext with
      | @header tile hheader htold =>
          refine ⟨.header tile :: said, [], { tile with runs } :: tiles, ?_, ?_,
            .header hheader (htold.withRuns runs) hlines⟩
          · rw [hlast, Array.toList_push, List.append_assoc, List.singleton_append]
          · rw [List.foldr_cons, hsaid, Line.prepend]
      | @run added hrun htold hstart =>
          refine ⟨.run added :: said, added :: runs, tiles, ?_, ?_, .run hrun htold hlines⟩
          · rw [hlast, Array.toList_push, List.append_assoc, List.singleton_append]
          · rw [List.foldr_cons, hsaid, Line.prepend]
      | other hheader hrun => exact ⟨said, runs, tiles, hlast, hsaid, .other hheader hrun hlines⟩

/-! ## Names -/

/-- The name that a header gives to its tile. -/
def headerName? (line : Entry) : Option String :=
  if IsHeader line then (wordsOf line)[1]?.map String.ofList else none

/-- The names that headers give, in order. -/
def headerNames (lines : List Entry) : List String := lines.filterMap headerName?

theorem headerName?_of_header (hheader : IsHeader line) (htold : HeaderSays (wordsOf line) tile) :
    headerName? line = some tile.name := by
  rw [headerName?, if_pos hheader]
  generalize wordsOf line = words at htold
  cases htold with
  | intro hx hy => rfl

theorem headerName?_of_not (h : ¬ IsHeader line) : headerName? line = none := if_neg h

/-- The tiles of a list have the names that its headers give. -/
theorem Describes.namesOf_eq (h : Describes lines runs tiles) :
    Tiles.namesOf tiles = headerNames lines := by
  induction h with
  | nil => rfl
  | header hheader htold hlines ih =>
      rw [headerNames, List.filterMap_cons_some (headerName?_of_header hheader htold)]
      exact congrArg _ ih
  | run hrun htold hlines ih =>
      rw [headerNames, List.filterMap_cons_none (headerName?_of_not (not_isHeader_of_isRun hrun))]
      exact ih
  | other hheader hrun hlines ih =>
      rw [headerNames, List.filterMap_cons_none (headerName?_of_not hheader)]
      exact ih

/-! ## Runs -/

/-- Lines up to the next header, and the runs that they say. -/
structure Holds (own rest : List Entry) (runs : List BitRun) : Prop where
  headless : ∀ line ∈ own, ¬ IsHeader line
  ended : ∀ next ∈ rest.head?, IsHeader next
  runs_said : List.Forall₂ (fun line run => RunSays (wordsOf line) run) (own.filter IsRun) runs

/-- The runs at the front are those of the lines up to the first header. -/
theorem Describes.exists_holds (h : Describes lines runs tiles) :
    ∃ own rest, lines = own ++ rest ∧ Holds own rest runs ∧ Describes rest [] tiles := by
  induction h with
  | nil => exact ⟨[], [], rfl, ⟨by simp, by simp, .nil⟩, .nil⟩
  | @header line lines tile tiles hheader htold hlines ih =>
      refine ⟨[], line :: lines, rfl, ⟨by simp, ?_, .nil⟩, .header hheader htold hlines⟩
      intro next hnext
      obtain rfl := Option.some.inj hnext
      exact hheader
  | @run line _ _ _ _ hrun htold hlines ih =>
      obtain ⟨own, rest, rfl, ⟨hheadless, hended, hown⟩, hrest⟩ := ih
      refine ⟨line :: own, rest, rfl, ⟨?_, hended, ?_⟩, hrest⟩
      · exact List.forall_mem_cons.2 ⟨not_isHeader_of_isRun hrun, hheadless⟩
      · rw [List.filter_cons_of_pos (by simpa using hrun)]
        exact .cons htold hown
  | @other line _ _ _ hheader hrun hlines ih =>
      obtain ⟨own, rest, rfl, ⟨hheadless, hended, hown⟩, hrest⟩ := ih
      refine ⟨line :: own, rest, rfl, ⟨?_, hended, ?_⟩, hrest⟩
      · exact List.forall_mem_cons.2 ⟨hheader, hheadless⟩
      · rwa [List.filter_cons_of_neg (by simpa using hrun)]

/-- A tile of a list has a header, and the runs up to the next one. -/
theorem Describes.exists_header (h : Describes lines runs tiles)
    (htiles : tiles = front ++ tile :: back) :
    ∃ before header own rest, lines = before ++ header :: (own ++ rest) ∧ IsHeader header ∧
      HeaderSays (wordsOf header) tile ∧ Holds own rest tile.runs ∧ Describes rest [] back := by
  induction h generalizing front with
  | nil => simp at htiles
  | @header line _ _ _ hheader htold hlines ih =>
      cases front with
      | nil =>
          obtain ⟨rfl, rfl⟩ := List.cons.inj htiles
          obtain ⟨own, rest, rfl, hholds, hrest⟩ := hlines.exists_holds
          exact ⟨[], line, own, rest, rfl, hheader, htold, hholds, hrest⟩
      | cons first front =>
          obtain ⟨before, header, own, rest, rfl, hfound⟩ := ih (List.cons.inj htiles).2
          exact ⟨line :: before, header, own, rest, rfl, hfound⟩
  | @run line _ _ _ _ hrun htold hlines ih =>
      obtain ⟨before, header, own, rest, rfl, hfound⟩ := ih htiles
      exact ⟨line :: before, header, own, rest, rfl, hfound⟩
  | @other line _ _ _ hheader hrun hlines ih =>
      obtain ⟨before, header, own, rest, rfl, hfound⟩ := ih htiles
      exact ⟨line :: before, header, own, rest, rfl, hfound⟩

/-- A tile is what the last header of its name says, with the runs up to the next header. -/
def SaidBy (lines : List Entry) (tile : Tile) : Prop :=
  ∃ before header own rest, lines = before ++ header :: (own ++ rest) ∧ IsHeader header ∧
    HeaderSays (wordsOf header) tile ∧ Holds own rest tile.runs ∧ tile.name ∉ headerNames rest

theorem RunSays.fits {words : List (List Char)} {run : BitRun} (h : RunSays words run) :
    run.offset + run.size ≤ Frame.bitCount := by
  cases h with
  | intro _ _ _ hinside => exact hinside

/-- The runs of a tile lie in frames. -/
theorem SaidBy.fits (h : SaidBy lines tile) :
    ∀ run ∈ tile.runs, run.offset + run.size ≤ Frame.bitCount := by
  obtain ⟨_, _, own, _, -, -, -, hholds, -⟩ := h
  have htold := hholds.runs_said
  generalize own.filter IsRun = runLines, tile.runs = runs at htold
  induction htold with
  | nil => simp
  | cons hfirst hothers ih => exact List.forall_mem_cons.2 ⟨hfirst.fits, ih⟩

/-! ## What is wrong -/

/-- What is wrong with a line after those before it: it is malformed, or a run that no header
precedes. -/
def Wrong (before : List Entry) (line : Entry) (cause : LineFault) : Prop :=
  Malformed line cause ∨
    (cause = .runOutsideTile ∧ IsRun line ∧ (∃ run, RunSays (wordsOf line) run) ∧
      ∀ earlier ∈ before, ¬ IsHeader earlier)

/-- The first line of a list that is wrong, and what is wrong with it. -/
def FirstWrong (lines : List Entry) (line : Entry) (cause : LineFault) : Prop :=
  ∃ before after, lines = before ++ line :: after ∧ Wrong before line cause ∧
    ∀ front earlier back, before = front ++ earlier :: back → ∀ other, ¬ Wrong front earlier other

/-- Nothing has been added as long as no header has. -/
theorem isEmpty_of_foldlM (h : lines.foldlM (addLine path) start = .ok last) :
    last.isEmpty = true ↔ start.isEmpty = true ∧ ∀ line ∈ lines, ¬ IsHeader line := by
  induction lines generalizing start with
  | nil =>
      obtain rfl := Except.ok.inj h
      simp
  | cons line lines ih =>
      rw [List.foldlM_cons] at h
      obtain ⟨next, hnext, hrest⟩ := Except.bind_eq_ok.1 h
      rw [ih hrest, List.forall_mem_cons, ← and_assoc]
      apply and_congr_left'
      cases adds_of_addLine hnext with
      | header hheader htold => simp [hheader]
      | run hrun htold hstart => simp [hstart]
      | other hheader hrun => simp [hheader]

/-- A line cannot be added to those before it if and only if it is wrong after them. -/
theorem addLine_eq_error (h : before.foldlM (addLine path) #[] = .ok middle) :
    addLine path middle line = .error fault ↔
      ∃ cause, Wrong before line cause ∧ fault = .malformed path line.number cause := by
  have hempty : middle.isEmpty = true ↔ ∀ earlier ∈ before, ¬ IsHeader earlier := by
    simp [isEmpty_of_foldlM h]
  refine Except.mapError_eq_error.trans (exists_congr fun cause => and_congr ?_ eq_comm)
  refine Except.bind_eq_error.trans (or_congr parse_eq_error ?_)
  simp only [addTo_eq_error, hempty]
  constructor
  · intro hfails
    obtain ⟨said, hparse, ⟨run, rfl⟩, hheaders, hcause⟩ := hfails
    obtain ⟨hrun, htold⟩ := parse_eq_run.1 hparse
    exact ⟨hcause, hrun, ⟨run, htold⟩, hheaders⟩
  · intro hwrong
    obtain ⟨hcause, hrun, ⟨run, htold⟩, hheaders⟩ := hwrong
    exact ⟨.run run, parse_eq_run.2 ⟨hrun, htold⟩, ⟨run, rfl⟩, hheaders, hcause⟩

/-- No line of a list that is read is wrong. -/
theorem not_wrong_of_foldlM (h : lines.foldlM (addLine path) #[] = .ok last)
    (hlines : lines = before ++ line :: after) : ¬ Wrong before line cause := by
  rw [hlines, List.foldlM_append] at h
  obtain ⟨middle, hbefore, hrest⟩ := Except.bind_eq_ok.1 h
  rw [List.foldlM_cons] at hrest
  obtain ⟨next, hnext, -⟩ := Except.bind_eq_ok.1 hrest
  intro hwrong
  cases hnext.symm.trans ((addLine_eq_error hbefore).2 ⟨cause, hwrong, rfl⟩)

/-- A list is not read if and only if a line of it is wrong, and the first such line is told. -/
theorem foldlM_addLine_eq_error :
    lines.foldlM (addLine path) #[] = .error fault ↔
      ∃ line cause, FirstWrong lines line cause ∧ fault = .malformed path line.number cause := by
  rw [Except.foldlM_eq_error]
  constructor
  · intro h
    obtain ⟨before, line, after, middle, hlines, hbefore, hline⟩ := h
    obtain ⟨cause, hwrong, hfault⟩ := (addLine_eq_error hbefore).1 hline
    exact ⟨line, cause, ⟨before, after, hlines, hwrong,
      fun _ _ _ hsplit _ => not_wrong_of_foldlM hbefore hsplit⟩, hfault⟩
  · intro h
    obtain ⟨line, cause, ⟨before, after, hlines, hwrong, hfirst⟩, hfault⟩ := h
    cases hbefore : before.foldlM (addLine path) #[] with
    | ok middle =>
        exact ⟨before, line, after, middle, hlines, hbefore,
          (addLine_eq_error hbefore).2 ⟨cause, hwrong, hfault⟩⟩
    | error other =>
        -- A failure among the lines before would be of a line that is wrong.
        obtain ⟨front, earlier, back, middle, hsplit, hfront, hearlier⟩ :=
          Except.foldlM_eq_error.1 hbefore
        obtain ⟨other, hother, -⟩ := (addLine_eq_error hfront).1 hearlier
        exact absurd hother (hfirst front earlier back hsplit other)

/-! ## Lines that do not count -/

/-- What the headers and the runs of a list say, without the lines that do not count. -/
def countedTexts (lines : List Entry) : List String :=
  (lines.filter fun line => IsHeader line ∨ IsRun line).map Entry.text

/-- A list is read to its end by what its headers and runs say. -/
theorem foldlM_addLine_eq_ok :
    lines.foldlM (addLine path) start = .ok last ↔
      (countedTexts lines).foldlM
        (fun before said => (Line.parse said).bind (Line.addTo before)) start = .ok last := by
  induction lines generalizing start with
  | nil =>
      show Except.ok start = _ ↔ Except.ok start = _
      rw [Except.ok.injEq, Except.ok.injEq]
  | cons line lines ih =>
      rw [List.foldlM_cons, countedTexts]
      by_cases hcounts : IsHeader line ∨ IsRun line
      · rw [List.filter_cons_of_pos (by simpa using hcounts), List.map_cons, List.foldlM_cons]
        refine Except.bind_eq_ok.trans (Iff.trans ?_ Except.bind_eq_ok.symm)
        exact exists_congr fun next => and_congr Except.mapError_eq_ok ih
      · rw [List.filter_cons_of_neg (by simpa using hcounts)]
        have hskip : addLine path start line = .ok start :=
          addLine_eq_ok.2 ⟨.other, parse_eq_other.2 (not_or.1 hcounts), rfl⟩
        rw [hskip]
        exact ih

end ConfigStream.Tile

namespace ConfigStream.Tiles

open Tile

variable {path text : String} {tiles : Tiles} {fault : DatabaseFault}

/-- What a tile list means: its names are those that headers give, in the order in which they are
first given, and every tile is what the last header of its name says, with the runs up to the next
header. -/
structure Means (lines : List Text.Entry) (tiles : Tiles) : Prop where
  names_mem : ∀ name, name ∈ namesOf tiles.toList ↔ name ∈ headerNames lines
  names_order : (namesOf tiles.toList).Pairwise fun first second =>
    (headerNames lines).idxOf first < (headerNames lines).idxOf second
  found : ∀ name tile, tiles.get? name = some tile ↔ tile ∈ tiles.toList ∧ tile.name = name
  said : ∀ tile ∈ tiles.toList, SaidBy lines tile

theorem parse_eq_ok :
    parse path text = .ok tiles ↔ ∃ lines : Array Line,
      (Text.entries text).foldlM (addLine path) #[] = .ok lines ∧
        ofList (ofLines lines.toList) = tiles := by
  rw [parse, Except.map_eq_ok, parseAll]
  simp only [Except.map_eq_ok, exists_exists_and_eq_and]

theorem parse_eq_error :
    parse path text = .error fault ↔ ∃ line cause, FirstWrong (Text.entries text) line cause ∧
      fault = .malformed path line.number cause := by
  rw [parse, Except.map_eq_error, parseAll, Except.map_eq_error, foldlM_addLine_eq_error]

/-- The tiles of a list that is read are what it means. -/
theorem means_of_parse (h : parse path text = .ok tiles) : Means (Text.entries text) tiles := by
  obtain ⟨lines, hlines, rfl⟩ := parse_eq_ok.1 h
  obtain ⟨said, runs, listed, hsaid, hfold, hdescribes⟩ := describes_of_foldlM hlines
  have hlisted : ofLines lines.toList = listed := by
    rw [hsaid, ofLines]
    exact congrArg Prod.snd hfold
  have hnames := hdescribes.namesOf_eq
  rw [hlisted]
  refine ⟨?_, ?_, ?_, ?_⟩
  · intro name
    rw [namesOf_toList, Array.mem_toList_iff, mem_names, hnames]
  · rw [namesOf_toList, ← hnames]
    exact names_pairwise listed
  · intro name tile
    rw [mem_toList]
    constructor
    · intro hfound
      have hname := (get?_ofList.1 hfound).2
      exact ⟨hname ▸ hfound, hname⟩
    · intro hfound
      rw [← hfound.2]
      exact hfound.1
  · intro tile htile
    obtain ⟨⟨front, back, hsplit, hback⟩, -⟩ := get?_ofList.1 (mem_toList.1 htile)
    obtain ⟨before, header, own, rest, hentries, hheader, htold, hholds, hrest⟩ :=
      hdescribes.exists_header hsplit
    refine ⟨before, header, own, rest, hentries, hheader, htold, hholds, ?_⟩
    rw [← hrest.namesOf_eq]
    intro hmem
    obtain ⟨other, hother, hname⟩ := List.mem_map.1 hmem
    exact hback other hother hname

/-- What reading a tile list gives. Every line of a text has the first word that it is told by, so
each is read as something or refused. If the list is read, its tiles are what it means, their runs
lie in frames, and lines with other first words have no influence. It is refused whenever a line is
wrong, and the failure tells the first such line. -/
theorem parse_meaning (path text : String) :
    (∀ line ∈ Text.entries text, wordsOf line ≠ []) ∧
    (∀ tiles, parse path text = .ok tiles →
      Means (Text.entries text) tiles ∧
      (∀ tile ∈ tiles.toList, ∀ run ∈ tile.runs, run.offset + run.size ≤ Frame.bitCount) ∧
      ∀ other, countedTexts (Text.entries other) = countedTexts (Text.entries text) →
        parse path other = .ok tiles) ∧
    (∀ fault, parse path text = .error fault ↔
      ∃ line cause, FirstWrong (Text.entries text) line cause ∧
        fault = .malformed path line.number cause) ∧
    ∀ before line after cause, Text.entries text = before ++ line :: after →
      Wrong before line cause → ∃ fault, parse path text = .error fault := by
  refine ⟨fun line => Text.fields_ne_nil_of_mem_entries, ?_, fun fault => parse_eq_error, ?_⟩
  · intro tiles h
    have hmeans := means_of_parse h
    refine ⟨hmeans, fun tile htile => (hmeans.said tile htile).fits, ?_⟩
    intro other hother
    obtain ⟨lines, hlines, htiles⟩ := parse_eq_ok.1 h
    rw [foldlM_addLine_eq_ok, ← hother, ← foldlM_addLine_eq_ok] at hlines
    exact parse_eq_ok.2 ⟨lines, hlines, htiles⟩
  · intro before line after cause hentries hwrong
    cases hread : parse path text with
    | ok tiles =>
        obtain ⟨lines, hlines, -⟩ := parse_eq_ok.1 hread
        exact absurd hwrong (not_wrong_of_foldlM hlines hentries)
    | error fault => exact ⟨fault, rfl⟩

/-- A tile that is named again moves no further back and loses its earlier runs. A run that ends one
bit after its frame is the first line that is wrong, in front of a header without a place. -/
theorem parse_meaning_again :
    let text := ".tile A CELL 1 2\nframe 0x10 bits 0 size 4\n.tile B CELL 3 4\nname x\n" ++
      ".tile A DSP -5 +6 # moved\nframe 20z at 8 for 2\n"
    let long := ".tile A CELL 1 2\n\nframe 10 bits 2000 size 977\n.tile B CELL\n"
    (∃ tiles, parse "tiles.txt" text = .ok tiles ∧
      tiles.toList = [⟨"A", "DSP", -5, 6, [⟨0x20, 8, 2⟩]⟩, ⟨"B", "CELL", 3, 4, []⟩] ∧
      Means (Text.entries text) tiles) ∧
    ∃ line, FirstWrong (Text.entries long) line (.runTooLong 2000 977) ∧ line.number = 3 := by
  intro text long
  constructor
  · have hlist : (parse "tiles.txt" text).map toList =
        .ok [⟨"A", "DSP", -5, 6, [⟨0x20, 8, 2⟩]⟩, ⟨"B", "CELL", 3, 4, []⟩] := by decide +kernel
    obtain ⟨tiles, hread, htiles⟩ := Except.map_eq_ok.1 hlist
    obtain ⟨-, hmeans, -⟩ := parse_meaning "tiles.txt" text
    exact ⟨tiles, hread, htiles, (hmeans tiles hread).1⟩
  · have hlist : (parse "tiles.txt" long).map toList =
        .error (.malformed "tiles.txt" 3 (.runTooLong 2000 977)) := by decide +kernel
    obtain ⟨-, -, hwrong, -⟩ := parse_meaning "tiles.txt" long
    obtain ⟨line, cause, hfirst, hfault⟩ := (hwrong _).1 (Except.map_eq_error.1 hlist)
    obtain ⟨-, hnumber, rfl⟩ := DatabaseFault.malformed.inj hfault
    exact ⟨line, hfirst, hnumber.symm⟩

end ConfigStream.Tiles
