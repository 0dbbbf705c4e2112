import ConfigStream.Database.Assignment
import ConfigStream.Proofs.Database.Assignment
import ConfigStream.Proofs.Steps
import ConfigStream.Proofs.Text.Layout

/-!
# Input files laid out anew

Every reader of a line-oriented file works through its entries and takes of their numbers no more
than a failure tells. So a file that is laid out anew is read as before, and a failure tells the
number of its line in the new layout (`Text.Relaid.reads_alike`).
-/

namespace ConfigStream

open Text (Entry)

/-- The fault of a text after lines have been inserted before the line it tells of. -/
def DatabaseFault.shift (inserted : Nat → Nat) : DatabaseFault → DatabaseFault
  | .malformed path line fault => .malformed path (line + inserted line) fault
  | .malformedEntry line text => .malformedEntry (line + inserted line) text
  | fault => fault

variable {text other path : String} {inserted : Nat → Nat}

/-- What is wrong with a line is told of its new number. -/
theorem mapError_malformed_shift {α : Type} (action : Except LineFault α) (path : String)
    (entry : Entry) :
    action.mapError (DatabaseFault.malformed path (entry.shift inserted).number) =
      (action.mapError (DatabaseFault.malformed path entry.number)).mapError
        (.shift inserted) := by
  cases action <;> rfl

namespace AddressSet

theorem parseStrict_of_entries
    (h : Text.entries other = (Text.entries text).map (.shift inserted)) :
    parseStrict path other = (parseStrict path text).mapError (.shift inserted) := by
  rw [parseStrict, h]
  apply foldlM_map_rename
  intro addresses line
  dsimp only [Entry.shift]
  cases Text.leadingHex? line.text.toList <;> rfl

theorem parse_of_entries (h : Text.entries other = (Text.entries text).map (.shift inserted)) :
    parse other = parse text := by
  rw [parse, h, List.filterMap_map]
  rfl

end AddressSet

theorem Tiles.parse_of_entries
    (h : Text.entries other = (Text.entries text).map (.shift inserted)) :
    parse path other = (parse path text).mapError (.shift inserted) := by
  have hlines : (Text.entries other).foldlM (Tile.addLine path) #[] =
      ((Text.entries text).foldlM (Tile.addLine path) #[]).mapError (.shift inserted) := by
    rw [h]
    exact foldlM_map_rename (fun before line => mapError_malformed_shift _ path line) _ _
  rw [parse, Tile.parseAll, hlines, Except.map_mapError, Except.map_mapError]
  rfl

theorem BitTable.parse_of_entries
    (h : Text.entries other = (Text.entries text).map (.shift inserted)) :
    parse path other = (parse path text).mapError (.shift inserted) := by
  have hlines : (Text.entries other).mapM (readLine path) =
      ((Text.entries text).mapM (readLine path)).mapError (.shift inserted) := by
    rw [h]
    exact mapM_map_rename (fun line => mapError_malformed_shift _ path line) _
  rw [parse, hlines, Except.map_mapError]
  rfl

/-- Feature assignments tell no line number of their text. -/
theorem Design.assignFeatures_of_entries {files : Files} {design : Design}
    (h : Text.entries other = (Text.entries text).map (.shift inserted)) :
    design.assignFeatures files other = design.assignFeatures files text := by
  have hline (work : Design × Nat) (line : Entry) :
      featureLine files work (line.shift inserted) =
        ((featureLine files work line).1, (featureLine files work line).2.map id) := by
    rw [Option.map_id]
    rfl
  rw [assignFeatures_eq, assignFeatures_eq, h, runSteps_map hline, Option.map_id]
  rfl

theorem FrameMemory.assignHarness_of_entries {memory : FrameMemory} {region : AddressSet}
    (h : Text.entries other = (Text.entries text).map (.shift inserted)) :
    memory.assignHarness other region =
      ((memory.assignHarness text region).1,
        (memory.assignHarness text region).2.mapError (.shift inserted)) := by
  have hline (work : FrameMemory × Nat) (line : Entry) :
      harnessLine region work (line.shift inserted) =
        ((harnessLine region work line).1,
          (harnessLine region work line).2.map (.shift inserted)) := by
    obtain ⟨filled, count⟩ := work
    simp only [harnessLine, Entry.shift]
    cases BitAddress.parse line.text with
    | error cause => rfl
    | ok address =>
        dsimp only
        split
        · rfl
        · cases filled.setBit address.frame address.index <;> rfl
  rw [assignHarness_eq, assignHarness_eq, h, runSteps_map hline]
  generalize runSteps (harnessLine region) (memory, 0) (Text.entries text) = run
  obtain ⟨⟨left, count⟩, failure⟩ := run
  cases failure <;> rfl

/-- A text that is laid out anew is read as before by every reader: a list of frames, a list of
addresses, a tile list, a bit table, feature assignments and a harness. The value is the same, and
so are the bits set before a failure. A failure is the same but for the number of its line, which
has grown by the lines inserted before it. -/
theorem Text.Relaid.reads_alike
    (h : Text.Relaid (text.toList.splitOn '\n') (other.toList.splitOn '\n') inserted) :
    (∀ path, AddressSet.parseStrict path other =
      (AddressSet.parseStrict path text).mapError (.shift inserted)) ∧
    AddressSet.parse other = AddressSet.parse text ∧
    (∀ path, Tiles.parse path other = (Tiles.parse path text).mapError (.shift inserted)) ∧
    (∀ path, BitTable.parse path other = (BitTable.parse path text).mapError (.shift inserted)) ∧
    (∀ files (design : Design),
      design.assignFeatures files other = design.assignFeatures files text) ∧
    ∀ (memory : FrameMemory) region, memory.assignHarness other region =
      ((memory.assignHarness text region).1,
        (memory.assignHarness text region).2.mapError (.shift inserted)) := by
  have hentries := h.entries_eq
  exact ⟨fun _ => AddressSet.parseStrict_of_entries hentries,
    AddressSet.parse_of_entries hentries, fun _ => Tiles.parse_of_entries hentries,
    fun _ => BitTable.parse_of_entries hentries,
    fun _ _ => Design.assignFeatures_of_entries hentries,
    fun _ _ => FrameMemory.assignHarness_of_entries hentries⟩

/-- The second line of a harness is no address. It is the third after a comment has been inserted,
blanks and another comment have been put around the first, and lines end with a carriage return. -/
theorem Text.Relaid.reads_alike_commented :
    let text := "F0x2W0B0\nF0x2\n"
    let other := "# bits\r\n\tF0x2W0B0 # first\r\nF0x2\r\n"
    ∃ inserted, Text.Relaid (text.toList.splitOn '\n') (other.toList.splitOn '\n') inserted ∧
      ∃ left, (FrameMemory.ofAddresses [2]).assignHarness text ∅ =
          (left, .error (.malformedEntry 2 "F0x2")) ∧
        (FrameMemory.ofAddresses [2]).assignHarness other ∅ =
          (left, .error (.malformedEntry 3 "F0x2")) ∧ left.isSet 2 0 = true := by
  intro text other
  have htext : text.toList.splitOn '\n' = ["F0x2W0B0".toList, "F0x2".toList, []] := by decide
  have hdrawn : "# bits\n\tF0x2W0B0 # first\nF0x2\n".toList.splitOn '\n' =
      ["# bits".toList, "\tF0x2W0B0 # first".toList, "F0x2".toList, []] := by decide
  have hother : Text.withReturns "# bits\n\tF0x2W0B0 # first\nF0x2\n".toList = other.toList := by
    decide
  have hinsert := @Text.Relaid.insert [] ["F0x2W0B0".toList, "F0x2".toList, []] "# bits".toList
    ⟨[], by simp, .inr ⟨" bits".toList, rfl⟩⟩
  have hpad := @Text.Relaid.pad ["# bits".toList] ["F0x2".toList, []] ['\t'] "F0x2W0B0".toList [' ']
    [] (List.forall_mem_singleton.2 rfl) (List.forall_mem_singleton.2 rfl) (.inl rfl)
  have hcomment := @Text.Relaid.comment ["# bits".toList] ["F0x2".toList, []]
    "\tF0x2W0B0 ".toList " first".toList [] (.inl rfl)
  have hreturns := @Text.Relaid.returns "# bits\n\tF0x2W0B0 # first\nF0x2\n".toList
  rw [hdrawn, hother] at hreturns
  have hrelaid := hinsert.trans (hpad.trans (hcomment.trans hreturns))
  rw [List.nil_append, ← htext] at hrelaid
  have hfails : ((FrameMemory.ofAddresses [2]).assignHarness text ∅).2 =
      .error (.malformedEntry 2 "F0x2") := by decide +kernel
  have hlast := hrelaid.reads_alike.2.2.2.2.2 (FrameMemory.ofAddresses [2]) ∅
  exact ⟨_, hrelaid, _, Prod.ext rfl hfails, hlast.trans (by rw [hfails]; rfl), by decide +kernel⟩

end ConfigStream
