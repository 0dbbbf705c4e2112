import ConfigStream.Proofs.Database.Features
import ConfigStream.Proofs.Frame.Address
import ConfigStream.Proofs.Text.Lines

/-!
# Assignments that fail

Harnesses and feature assignments are worked through line by line, and what has been set before a
line that fails stays. A harness that fails leaves what the lines before the failing one leave
(`FrameMemory.assignHarness_eq_error`). Feature assignments that fail leave besides the bits of the
failing line's feature that come before the first that cannot be set
(`Design.assignFeatures_eq_error`). Nothing else is touched (`Design.assigned_up_to_failure`).
-/

namespace ConfigStream

/-- Working through a text fails if and only if a part of it that ends before some line is worked
through to its end and the line fails there. -/
theorem runSteps_entries_eq_some {σ ε : Type} {step : σ → Text.Entry → σ × Option ε}
    {state final : σ} {text : String} {failure : ε} :
    runSteps step state (Text.entries text) = (final, some failure) ↔
      ∃ early line middle, Text.EndsBefore line text early ∧
        runSteps step state (Text.entries early) = (middle, none) ∧
        step middle line = (final, some failure) := by
  rw [runSteps_eq_some]
  constructor
  · rintro ⟨before, line, after, middle, hsplit, hbefore, hline⟩
    obtain ⟨early, hearly, rfl⟩ := Text.exists_endsBefore hsplit
    exact ⟨early, line, middle, hearly, hbefore, hline⟩
  · rintro ⟨early, line, middle, hearly, hbefore, hline⟩
    obtain ⟨after, hsplit⟩ := hearly.entries_eq
    exact ⟨Text.entries early, line, after, middle, hsplit, hbefore, hline⟩

/-! ## Harnesses -/

/-- A line of a harness fails: it is no bit address, or it asks for a bit of a frame that is neither
in the region nor in the memory. -/
inductive Harness.Refuses (memory : FrameMemory) (region : AddressSet) (line : Text.Entry) :
    DatabaseFault → Prop where
  | malformed {cause : Fault} (hparse : BitAddress.parse line.text = .error cause) :
      Refuses memory region line (.malformedEntry line.number line.text)
  | noFrame {address : BitAddress} (hparse : BitAddress.parse line.text = .ok address)
      (houtside : address.frame ∉ region) (hframe : memory.contains address.frame = false) :
      Refuses memory region line (.refused (.noFrame address.frame))

namespace FrameMemory

variable {memory left : FrameMemory} {region : AddressSet} {line : Text.Entry} {text : String}
  {count : Nat} {fault : DatabaseFault} {work : FrameMemory × Nat}

/-- A line that fails sets and counts nothing. -/
theorem harnessLine_eq_some :
    harnessLine region (memory, count) line = (work, some fault) ↔
      work = (memory, count) ∧ Harness.Refuses memory region line fault := by
  constructor
  · intro h
    unfold harnessLine at h
    cases hparse : BitAddress.parse line.text with
    | error cause =>
        simp only [hparse, Prod.mk.injEq, Option.some.injEq] at h
        obtain ⟨rfl, rfl⟩ := h
        exact ⟨rfl, .malformed hparse⟩
    | ok address =>
        by_cases hregion : region.contains address.frame = true
        · simp [hparse, hregion] at h
        · cases hset : memory.setBit address.frame address.index with
          | ok next => simp [hparse, hregion, hset] at h
          | error refusal =>
              simp only [hparse, hregion, hset, Bool.false_eq_true, if_false, Prod.mk.injEq,
                Option.some.injEq] at h
              obtain ⟨rfl, rfl⟩ := h
              -- What is read is the address of a bit in a frame, so that the frame is missing.
              have hindex := (BitAddress.inFrame_of_parse hparse).index_lt
              rcases setBit_eq_error.1 hset with ⟨houtside, -⟩ | ⟨-, hframe, rfl⟩
              · exact absurd hindex (Nat.not_lt_of_le houtside)
              · exact ⟨rfl, .noFrame hparse hregion hframe⟩
  · rintro ⟨rfl, hrefuses⟩
    unfold harnessLine
    cases hrefuses with
    | malformed hparse => simp only [hparse]
    | noFrame hparse houtside hframe =>
        have hindex := (BitAddress.inFrame_of_parse hparse).index_lt
        have hset := setBit_eq_error.2 (.inr ⟨hindex, hframe, rfl⟩)
        rw [Std.ExtTreeSet.mem_iff_contains] at houtside
        simp only [hparse, houtside, hset, Bool.false_eq_true, if_false]

/-- A harness that fails leaves what the lines before the failing one leave. -/
theorem assignHarness_eq_error :
    memory.assignHarness text region = (left, .error fault) ↔
      ∃ early line count, Text.EndsBefore line text early ∧
        memory.assignHarness early region = (left, .ok count) ∧
        Harness.Refuses left region line fault := by
  simp only [assignHarness_eq, counted_eq_error, counted_eq_ok, runSteps_entries_eq_some]
  constructor
  · rintro ⟨total, early, line, ⟨middle, count⟩, hearly, hbefore, hline⟩
    obtain ⟨hwork, hrefuses⟩ := harnessLine_eq_some.1 hline
    obtain ⟨rfl, rfl⟩ := Prod.mk.inj hwork
    exact ⟨early, line, total, hearly, hbefore, hrefuses⟩
  · rintro ⟨early, line, count, hearly, hbefore, hrefuses⟩
    exact ⟨count, early, line, _, hearly, hbefore, harnessLine_eq_some.2 ⟨rfl, hrefuses⟩⟩

end FrameMemory

/-! ## Bits of a tile -/

namespace FrameMemory

/-- A bit of a tile can be set: it has a place in a frame that exists. -/
def HasTileBit (memory : FrameMemory) (tile : Tile) (bit : Nat) : Prop :=
  ∃ place, tile.locate? bit = some place ∧ place.2 < Frame.bitCount ∧
    memory.contains place.1 = true

/-- A memory after bits of a tile, all of which can be set, have been set in another. -/
structure WithTileBits (memory : FrameMemory) (tile : Tile) (bits : List Nat)
    (left : FrameMemory) : Prop where
  hasTileBit : ∀ bit ∈ bits, memory.HasTileBit tile bit
  contains_eq : ∀ address, left.contains address = memory.contains address
  isSet_iff : ∀ address index, left.isSet address index = true ↔
    memory.isSet address index = true ∨ ∃ bit ∈ bits, tile.locate? bit = some (address, index)

variable {memory left : FrameMemory} {tile : Tile} {bit : Nat} {bits : List Nat}
  {places : List (UInt32 × Nat)} {fault : DatabaseFault}

/-- Bits of a tile are set by setting their places. -/
theorem setBits_eq_ok_iff_withTileBits (hplaces : bits.map tile.locate? = places.map some) :
    memory.setBits places = .ok left ↔ memory.WithTileBits tile bits left := by
  have hmem (place : UInt32 × Nat) :
      place ∈ places ↔ ∃ bit ∈ bits, tile.locate? bit = some place :=
    mem_iff_of_map_eq (fun _ _ => Option.some.inj) hplaces
  rw [setBits_eq_ok]
  constructor
  · rintro ⟨hframes, hcontains, hset⟩
    refine ⟨fun bit hbit => ?_, hcontains, fun address index => by rw [hset, hmem]⟩
    obtain ⟨place, hplace, hlocate⟩ := exists_of_map_eq hplaces hbit
    exact ⟨place, hlocate, hframes place hplace⟩
  · rintro ⟨hbits, hcontains, hset⟩
    refine ⟨fun place hplace => ?_, hcontains, fun address index => by rw [hset, hmem]⟩
    obtain ⟨bit, hbit, hlocate⟩ := (hmem place).1 hplace
    obtain ⟨other, hother, hframe⟩ := hbits bit hbit
    obtain rfl : place = other := Option.some.inj (hlocate.symm.trans hother)
    exact hframe

/-- Bits of a tile are worked through to the end if and only if all can be set. -/
theorem assignTileBits_eq_none_iff :
    memory.assignTileBits tile bits = (left, none) ↔ memory.WithTileBits tile bits left := by
  rw [assignTileBits_eq_none]
  constructor
  · rintro ⟨places, hplaces, hset⟩
    exact (setBits_eq_ok_iff_withTileBits hplaces).1 hset
  · intro h
    obtain ⟨places, hplaces⟩ : ∃ places : List (UInt32 × Nat),
        bits.map tile.locate? = places.map some := by
      refine exists_map_eq fun bit hbit => ?_
      obtain ⟨place, hlocate, -⟩ := h.hasTileBit bit hbit
      exact ⟨place, hlocate⟩
    exact ⟨places, hplaces, (setBits_eq_ok_iff_withTileBits hplaces).2 h⟩

/-- A bit of a tile cannot be set if it has no place or the memory refuses its place. -/
theorem assignTileBit_eq_error :
    memory.assignTileBit tile bit = .error fault ↔
      (tile.locate? bit = none ∧ fault = .badTileBit tile.name bit) ∨
      ∃ place, tile.locate? bit = some place ∧
        ∃ refusal, memory.setBit place.1 place.2 = .error refusal ∧ fault = .refused refusal := by
  unfold assignTileBit
  cases tile.locate? bit with
  | none => simp [eq_comm]
  | some place =>
      simp only [Option.some.injEq, exists_eq_left']
      cases memory.setBit place.1 place.2 <;> simp [eq_comm]

/-- Whether and why a bit of a tile cannot be set depends on the addresses alone. -/
theorem assignTileBit_eq_error_congr
    (h : ∀ address, left.contains address = memory.contains address) :
    left.assignTileBit tile bit = .error fault ↔
      memory.assignTileBit tile bit = .error fault := by
  simp only [assignTileBit_eq_error, setBit_eq_error, h]

/-- Where a bit of a tile cannot be set, those before it have been. -/
theorem assignTileBits_eq_some :
    memory.assignTileBits tile bits = (left, some fault) ↔
      ∃ early bit late, bits = early ++ bit :: late ∧ memory.WithTileBits tile early left ∧
        memory.assignTileBit tile bit = .error fault := by
  rw [assignTileBits, runSteps_eq_some]
  constructor
  · rintro ⟨early, bit, late, middle, hbits, hearly, hlast⟩
    cases hbit : middle.assignTileBit tile bit with
    | ok next => simp [hbit] at hlast
    | error cause =>
        simp only [hbit, Prod.mk.injEq, Option.some.injEq] at hlast
        obtain ⟨rfl, rfl⟩ := hlast
        have hset := assignTileBits_eq_none_iff.1 hearly
        exact ⟨early, bit, late, hbits, hset,
          (assignTileBit_eq_error_congr hset.contains_eq).1 hbit⟩
  · rintro ⟨early, bit, late, hbits, hset, hbit⟩
    have hlast := (assignTileBit_eq_error_congr hset.contains_eq).2 hbit
    exact ⟨early, bit, late, left, hbits, assignTileBits_eq_none_iff.2 hset, by simp only [hlast]⟩

end FrameMemory

/-! ## Feature assignments -/

/-- A feature of a tile fails: its look-up fails and nothing is set, or one of its bits cannot be
set, and those that its table lists before it are. -/
inductive Design.Refuses (files : Files) (design : Design) (tile feature : String) (left : Design) :
    DatabaseFault → Prop where
  | notFound {fault : DatabaseFault}
      (hfound : design.database.findFeature files tile feature = (.error fault, left.database))
      (hmemory : left.memory = design.memory) : Refuses files design tile feature left fault
  | atBit {placed : Tile} {early late : List Nat} {bit : Nat} {fault : DatabaseFault}
      (hfound : design.database.findFeature files tile feature =
        (.ok (placed, early ++ bit :: late), left.database))
      (hearly : design.memory.WithTileBits placed early left.memory)
      (hbit : design.memory.assignTileBit placed bit = .error fault) :
      Refuses files design tile feature left fault

namespace Design

variable {files : Files} {design left : Design} {line : Text.Entry} {text tile feature : String}
  {count : Nat} {fault : DatabaseFault} {work : Design × Nat}

theorem assignFeature_eq_some :
    design.assignFeature files tile feature = (left, some fault) ↔
      Refuses files design tile feature left fault := by
  unfold assignFeature
  constructor
  · intro h
    cases hfound : design.database.findFeature files tile feature with
    | mk result database =>
        cases result with
        | error cause =>
            simp only [hfound, Prod.mk.injEq, Option.some.injEq] at h
            obtain ⟨rfl, rfl⟩ := h
            exact .notFound hfound rfl
        | ok found =>
            obtain ⟨placed, bits⟩ := found
            cases hassign : design.memory.assignTileBits placed bits with
            | mk memory failure =>
                simp only [hfound, hassign, Prod.mk.injEq] at h
                obtain ⟨rfl, rfl⟩ := h
                obtain ⟨early, bit, late, rfl, hearly, hbit⟩ :=
                  FrameMemory.assignTileBits_eq_some.1 hassign
                exact .atBit hfound hearly hbit
  · intro h
    cases h with
    | notFound hfound hmemory => simp only [hfound, ← hmemory]
    | @atBit placed early late bit fault hfound hearly hbit =>
        have hassign := FrameMemory.assignTileBits_eq_some.2 ⟨early, bit, late, rfl, hearly, hbit⟩
        simp only [hfound, hassign]

/-- A line that fails names a feature that cannot be set, and is not counted. -/
theorem featureLine_eq_some :
    featureLine files (design, count) line = (work, some fault) ↔
      ∃ tile feature, tileFeature? line.text = some (tile, feature) ∧ work.2 = count ∧
        Refuses files design tile feature work.1 fault := by
  obtain ⟨left, total⟩ := work
  simp only [← assignFeature_eq_some]
  unfold featureLine
  cases tileFeature? line.text with
  | none => simp
  | some named =>
      obtain ⟨tile, feature⟩ := named
      cases hassign : design.assignFeature files tile feature with
      | mk next failure =>
          cases failure with
          | none => simp [hassign]
          | some cause => simp [hassign, eq_comm, and_comm, and_left_comm]

/-- Feature assignments that fail leave what the lines before the failing one leave, and the bits of
its feature before the first that cannot be set. -/
theorem assignFeatures_eq_error :
    design.assignFeatures files text = (left, .error fault) ↔
      ∃ early line between count tile feature, Text.EndsBefore line text early ∧
        design.assignFeatures files early = (between, .ok count) ∧
        tileFeature? line.text = some (tile, feature) ∧
        Refuses files between tile feature left fault := by
  simp only [assignFeatures_eq, counted_eq_error, counted_eq_ok, runSteps_entries_eq_some]
  constructor
  · rintro ⟨total, early, line, ⟨between, count⟩, hearly, hbefore, hline⟩
    obtain ⟨tile, feature, hnamed, -, hrefuses⟩ := featureLine_eq_some.1 hline
    exact ⟨early, line, between, count, tile, feature, hearly, hbefore, hnamed, hrefuses⟩
  · rintro ⟨early, line, between, count, tile, feature, hearly, hbefore, hnamed, hrefuses⟩
    exact ⟨count, early, line, _, hearly, hbefore,
      featureLine_eq_some.2 ⟨tile, feature, hnamed, rfl, hrefuses⟩⟩

/-- A harness fails exactly where the lines before one of its lines are worked through and this line
is refused, and it leaves what those lines leave. Feature assignments fail exactly where the lines
before one of theirs are worked through and the feature of this line is refused, and they leave
besides what was set of the feature. Whether they fail or not, both leave the addresses of the
memory and clear no bit, and the harness leaves every frame of its region. -/
theorem assigned_up_to_failure (files : Files) (design : Design) (region : AddressSet)
    (text : String) :
    (∀ left fault, design.memory.assignHarness text region = (left, .error fault) ↔
      ∃ early line count, Text.EndsBefore line text early ∧
        design.memory.assignHarness early region = (left, .ok count) ∧
        Harness.Refuses left region line fault) ∧
    (∀ left fault, design.assignFeatures files text = (left, .error fault) ↔
      ∃ early line between count tile feature, Text.EndsBefore line text early ∧
        design.assignFeatures files early = (between, .ok count) ∧
        tileFeature? line.text = some (tile, feature) ∧
        Refuses files between tile feature left fault) ∧
    design.memory.GrowsTo (design.memory.assignHarness text region).1 ∧
    design.memory.GrowsTo (design.assignFeatures files text).1.memory ∧
    ∀ address ∈ region,
      (design.memory.assignHarness text region).1.get? address = design.memory.get? address := by
  refine ⟨fun left fault => FrameMemory.assignHarness_eq_error,
    fun left fault => assignFeatures_eq_error,
    FrameMemory.growsTo_assignHarness design.memory text region,
    growsTo_assignFeatures files design text, ?_⟩
  intro address haddress
  exact FrameMemory.get?_assignHarness design.memory text haddress

/-- A harness gets to the line that asks for a missing frame, and a feature to its bit that the tile
does not have. -/
theorem assigned_up_to_failure_halfway :
    let table := BitTable.ofLines [some ("A", [3, 9])]
    let tiles := Tiles.ofList [⟨"T", "CELL", 0, 0, [⟨2, 32, 8⟩]⟩]
    let design : Design := ⟨⟨"db", ∅, tiles, .ofList [("CELL", table)]⟩, .ofAddresses [2, 6]⟩
    let region := AddressSet.ofAddresses [6]
    (∃ left early count,
      design.memory.assignHarness "F0x2W0B0\nF0x6W0B0\nF0x4W0B0\n" region =
        (left, .error (.refused (.noFrame 4))) ∧
      design.memory.assignHarness early region = (left, .ok count) ∧
      left.isSet 2 0 = true ∧ left.get? 6 = design.memory.get? 6) ∧
    ∃ left early between count,
      design.assignFeatures Database.cellFiles "U\nT.A\n" =
        (left, .error (.badTileBit "T" 9)) ∧
      design.assignFeatures Database.cellFiles early = (between, .ok count) ∧
      left.memory.isSet 2 35 = true ∧ left.memory.contains 6 = true := by
  intro table tiles design region
  constructor
  · have hfailed : (design.memory.assignHarness "F0x2W0B0\nF0x6W0B0\nF0x4W0B0\n" region).2 =
        .error (.refused (.noFrame 4)) := by decide +kernel
    obtain ⟨hharness, -, -, -, hregion⟩ := assigned_up_to_failure Database.cellFiles design region
      "F0x2W0B0\nF0x6W0B0\nF0x4W0B0\n"
    obtain ⟨early, line, count, -, hearly, -⟩ := (hharness _ _).1 (Prod.ext rfl hfailed)
    exact ⟨_, early, count, Prod.ext rfl hfailed, hearly, by decide +kernel,
      hregion 6 (by decide +kernel)⟩
  · have hfailed : (design.assignFeatures Database.cellFiles "U\nT.A\n").2 =
        .error (.badTileBit "T" 9) := by decide +kernel
    obtain ⟨-, hfeatures, -, hgrows, -⟩ :=
      assigned_up_to_failure Database.cellFiles design region "U\nT.A\n"
    obtain ⟨early, line, between, count, tile, feature, -, hearly, -⟩ :=
      (hfeatures _ _).1 (Prod.ext rfl hfailed)
    exact ⟨_, early, between, count, Prod.ext rfl hfailed, hearly, by decide +kernel,
      (hgrows.contains_eq 6).trans (by decide +kernel)⟩

end Design

end ConfigStream
