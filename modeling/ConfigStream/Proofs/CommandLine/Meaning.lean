import ConfigStream.Proofs.CommandLine.AssembleThenDump
import ConfigStream.Proofs.Database.Features
import ConfigStream.Proofs.Database.Harness

/-!
# What an assembly means

A bitstream that is assembled is that of a memory known from the texts of the input files alone: its
frames are those of the device and of the region, and its set bits are those that the harness asks
for outside the region and the places of the tile bits that the features ask for
(`CommandLine.Assembly.perform_meaning`).
-/

namespace ConfigStream

namespace Database

theorem isSet_blankMemory (database : Database) (address : UInt32) (index : Nat) :
    database.blankMemory.isSet address index = false :=
  FrameMemory.isSet_ofAddresses _ address index

/-- A text of feature assignments asks for a bit of a tile. -/
def Asks (files : Files) (device : Database) (text : String) (tile : Tile) (bit : Nat) : Prop :=
  ∃ line ∈ Text.entries text, device.Names files line.text tile bit

end Database

namespace CommandLine.Assembly

open Encoding

variable {files : Files} {assembly : Assembly} {database : Database} {memory : FrameMemory}
  {bitstream : Bitstream}

/-- A memory has been filled if and only if the texts could be read, and the harness and the
features could be worked through. -/
theorem fill_eq_ok :
    assembly.fill files database = .ok memory ↔
      ∃ region harness filled ingested features design applied,
        AddressSet.read files assembly.region = .ok region ∧
        files.readText assembly.harness = .ok harness ∧
        (database.blankMemory.reset region.toList).assignHarness harness region =
          (filled, .ok ingested) ∧
        files.readText assembly.features = .ok features ∧
        Design.assignFeatures files ⟨database, filled⟩ features = (design, .ok applied) ∧
        design.memory = memory := by
  simp only [fill, Except.bind_eq_ok, orFail_eq_ok]
  constructor
  · rintro ⟨region, hregion, harness, hharness, ingested, hingested, features, hfeatures, applied,
      happlied, hlast⟩
    exact ⟨region, harness, _, ingested, features, _, applied, hregion, hharness,
      Prod.ext rfl hingested, hfeatures, Prod.ext rfl happlied, Except.ok.inj hlast⟩
  · rintro ⟨region, harness, filled, ingested, features, design, applied, hregion, hharness,
      hingested, hfeatures, happlied, rfl⟩
    refine ⟨region, hregion, harness, hharness, ingested, by rw [hingested], features, hfeatures,
      applied, ?_, ?_⟩
    · rw [hingested, happlied]
    · rw [hingested, happlied]
      rfl

/-- The set bits of a filled memory are those that the harness asks for outside the region and the
places of the tile bits that the features ask for. -/
theorem isSet_fill (hload : Database.load files assembly.database = .ok database)
    (h : assembly.fill files database = .ok memory) :
    ∃ region harness features, AddressSet.read files assembly.region = .ok region ∧
      files.readText assembly.harness = .ok harness ∧
      files.readText assembly.features = .ok features ∧
      (∀ tile bit, database.Asks files features tile bit →
        ∃ place, tile.locate? bit = some place) ∧
      ∀ address index, memory.isSet address index = true ↔
        Harness.Asks region harness address index ∨
          ∃ tile bit, database.Asks files features tile bit ∧
            tile.locate? bit = some (address, index) := by
  obtain ⟨region, harness, filled, ingested, features, design, applied, hregion, hharness,
    hingested, hfeatures, happlied, rfl⟩ := fill_eq_ok.1 h
  obtain ⟨listed, hlisted, hfilled, -⟩ := FrameMemory.assignHarness_eq_ok.1 hingested
  obtain ⟨places, hplaces, hset⟩ :=
    Design.locates_assignFeatures (Database.keeps_of_load hload) happlied
  obtain ⟨-, -, hfirst⟩ := FrameMemory.setBits_eq_ok.1 hfilled
  obtain ⟨-, -, hsecond⟩ := FrameMemory.setBits_eq_ok.1 hset
  refine ⟨region, harness, features, hregion, hharness, hfeatures, ?_, fun address index => ?_⟩
  · rintro tile bit ⟨line, hline, hnames⟩
    obtain ⟨place, -, hlocate⟩ := hplaces.every line hline tile bit hnames
    exact ⟨place, hlocate⟩
  · have hblank : (database.blankMemory.reset region.toList).isSet address index = false := by
      rw [FrameMemory.isSet_reset, database.isSet_blankMemory, Bool.false_and]
    have hlocated : (address, index) ∈ places ↔ ∃ tile bit,
        database.Asks files features tile bit ∧ tile.locate? bit = some (address, index) := by
      constructor
      · intro hplace
        obtain ⟨line, hline, tile, bit, hnames, hlocate⟩ := hplaces.only _ hplace
        exact ⟨tile, bit, ⟨line, hline, hnames⟩, hlocate⟩
      · rintro ⟨tile, bit, ⟨line, hline, hnames⟩, hlocate⟩
        obtain ⟨place, hplace, hother⟩ := hplaces.every line hline tile bit hnames
        exact Option.some.inj (hother.symm.trans hlocate) ▸ hplace
    rw [hsecond, hfirst, hblank, Harness.mem_placesOutside_iff_asks hlisted, hlocated]
    simp

/-- Another harness that asks for the same bits outside the region fills the same memory. -/
theorem fill_congr {region : AddressSet} {path harness other : String}
    (h : assembly.fill files database = .ok memory)
    (hregion : AddressSet.read files assembly.region = .ok region)
    (hharness : files.readText assembly.harness = .ok harness)
    (hother : files.readText path = .ok other)
    (hlines : ∀ line ∈ Text.entries other, ∃ address, BitAddress.parse line.text = .ok address)
    (hsame : Harness.Asks region other = Harness.Asks region harness) :
    ({ assembly with harness := path } : Assembly).fill files database = .ok memory := by
  obtain ⟨listed, text, filled, ingested, features, design, applied, hlisted, htext, hingested,
    hfeatures, happlied, hmemory⟩ := fill_eq_ok.1 h
  obtain rfl : region = listed := Except.ok.inj (hregion.symm.trans hlisted)
  obtain rfl : harness = text := Except.ok.inj (hharness.symm.trans htext)
  obtain ⟨seen, hseen⟩ := FrameMemory.assignHarness_congr hingested hlines hsame
  exact fill_eq_ok.2 ⟨region, other, filled, seen, features, design, applied, hlisted, hother,
    hseen, hfeatures, happlied, hmemory⟩

/-- What an assembly makes is the bitstream, in the order of the frames of the device, of the memory
whose addresses are those of the device and of the region, and whose set bits are those that the
harness asks for outside the region and the places of all tile bits that the features ask for. Lines
of a harness for frames of the region do not count: with another harness that asks for the same bits
outside the region, the bitstream is the same. -/
theorem perform_meaning (h : assembly.perform files = .ok bitstream) :
    ∃ profile database frameList regionList harness features memory,
      assembly.loadProfile files = .ok profile ∧
      Database.load files assembly.database = .ok database ∧
      database.root = assembly.database ∧
      files.readText (Database.framesPath assembly.database) = .ok frameList ∧
      files.readText assembly.region = .ok regionList ∧
      files.readText assembly.harness = .ok harness ∧
      files.readText assembly.features = .ok features ∧
      Bitstream.ofMemory profile memory
        (.ofAddresses (AddressSet.parse frameList).frameAddresses) = .ok bitstream ∧
      (∀ address, address ∈ memory.addresses ↔
        (address ∈ AddressSet.parse frameList ∧ address ≠ endOfConfiguration) ∨
          address ∈ AddressSet.parse regionList) ∧
      (∀ tile bit, database.Asks files features tile bit →
        ∃ place, tile.locate? bit = some place) ∧
      (∀ address index, memory.isSet address index = true ↔
        Harness.Asks (AddressSet.parse regionList) harness address index ∨
          ∃ tile bit, database.Asks files features tile bit ∧
            tile.locate? bit = some (address, index)) ∧
      ∀ path other, files.readText path = .ok other →
        (∀ line ∈ Text.entries other, ∃ address, BitAddress.parse line.text = .ok address) →
        Harness.Asks (AddressSet.parse regionList) other =
          Harness.Asks (AddressSet.parse regionList) harness →
        ({ assembly with harness := path } : Assembly).perform files = .ok bitstream := by
  obtain ⟨profile, database, memory, hprofile, hload, hfill, hmade⟩ := perform_eq_ok.1 h
  obtain ⟨region, harness, features, hregion, hharness, hfeatures, hlocated, hset⟩ :=
    isSet_fill hload hfill
  obtain ⟨hroot, frameList, hframeList, hframes⟩ := Database.frames_of_load hload
  obtain ⟨regionList, hregionList, rfl⟩ := AddressSet.read_eq_ok.1 hregion
  obtain ⟨read, hread, haddresses⟩ := mem_addresses_fill hfill
  obtain rfl : AddressSet.parse regionList = read := Except.ok.inj (hregion.symm.trans hread)
  refine ⟨profile, database, frameList, regionList, harness, features, memory, hprofile, hload,
    hroot, hframeList, hregionList, hharness, hfeatures, ?_, ?_, hlocated, hset, ?_⟩
  · rw [hframes]
    exact hmade
  · intro address
    rw [haddresses, AddressSet.mem_frameAddresses, hframes]
  · intro path other hother hlines hsame
    have hfilled := fill_congr hfill hregion hharness hother hlines hsame
    exact perform_eq_ok.2 ⟨profile, database, memory, hprofile, hload, hfilled, hmade⟩

/-- The files of a device with the frames 0 and 2, of which 0 is the region. The harness has a bit
in each, and a feature of a tile has two. The other harness has no bit in the region. -/
def tileFiles : Files :=
  (Disk.ofFiles [("db/frames.txt", textBytes "0x0\n0x2\n0x07FC0000\n"),
    ("db/tiles.txt", textBytes ".tile T CELL 0 0\nframe 0x2 word 32 word 8\n"),
    ("db/CELL.bits", textBytes "A.B 3\nA.B 5\n"), ("region", textBytes "0x0\n"),
    ("harness", textBytes "F0x00000002W000B00\nF0x00000000W000B01\n"),
    ("outside", textBytes "F0x00000002W000B00\n"), ("features", textBytes "T.A.B\n")]).toFiles

/-- The bit outside the region is set, and so are those of both lines of the table. The line of the
region may be left out. -/
theorem perform_meaning_tile :
    ∃ bitstream profile memory order, gapAssembly.perform tileFiles = .ok bitstream ∧
      ({ gapAssembly with harness := "outside" } : Assembly).perform tileFiles = .ok bitstream ∧
      Bitstream.ofMemory profile memory order = .ok bitstream ∧
      (∀ address, address ∈ memory.addresses ↔ address = 0 ∨ address = 2) ∧
      memory.isSet 2 0 = true ∧ memory.isSet 2 35 = true ∧ memory.isSet 2 37 = true := by
  have hbits : gapBits tileFiles = .ok (some 0, [⟨2, 0, 0⟩, ⟨2, 1, 3⟩, ⟨2, 1, 5⟩],
      [⟨2, 0, 0⟩, ⟨2, 1, 3⟩, ⟨2, 1, 5⟩], true) := by decide +kernel
  obtain ⟨-, -, bitstream, -, -, -, hperform, -⟩ := gapAssembly_perform hbits
  obtain ⟨profile, database, frameList, regionList, harness, features, memory, -, hload, hroot,
    hframeList, hregionList, hharness, hfeatures, hmade, haddresses, -, hset, hother⟩ :=
    perform_meaning hperform
  obtain rfl : "0x0\n0x2\n0x07FC0000\n" = frameList := Except.ok.inj <|
    (show tileFiles.readText "db/frames.txt" = _ by decide +kernel).symm.trans hframeList
  obtain rfl : "0x0\n" = regionList := Except.ok.inj <|
    (show tileFiles.readText "region" = _ by decide +kernel).symm.trans hregionList
  obtain rfl : "F0x00000002W000B00\nF0x00000000W000B01\n" = harness := Except.ok.inj <|
    (show tileFiles.readText "harness" = _ by decide +kernel).symm.trans hharness
  obtain rfl : "T.A.B\n" = features := Except.ok.inj <|
    (show tileFiles.readText "features" = _ by decide +kernel).symm.trans hfeatures
  have hframes : (AddressSet.parse "0x0\n0x2\n0x07FC0000\n").toList =
      [0, 2, endOfConfiguration] := by decide +kernel
  have hregion : (AddressSet.parse "0x0\n").toList = [0] := by decide +kernel
  have htiles : (Database.load tileFiles "db").map (fun device => device.tiles.get? "T") =
      .ok (some ⟨"T", "CELL", 0, 0, [⟨2, 32, 8⟩]⟩) := by decide +kernel
  rw [show Database.load tileFiles "db" = _ from hload] at htiles
  have htile := Except.ok.inj htiles
  have htable : tileFiles.readText (Database.tablePath database.root "CELL") =
      .ok "A.B 3\nA.B 5\n" := by
    rw [hroot]
    decide +kernel
  -- Either line of the table is enough for its bit.
  have hasks {bit : Nat} (hlists : BitTable.Lists "A.B 3\nA.B 5\n" "A.B".toList bit) :
      database.Asks tileFiles "T.A.B\n" ⟨"T", "CELL", 0, 0, [⟨2, 32, 8⟩]⟩ bit :=
    ⟨⟨1, "T.A.B"⟩, by decide +kernel, ['T'], "A.B".toList, by decide, by decide, htile, _, htable,
      hlists⟩
  have hthree : BitTable.Lists "A.B 3\nA.B 5\n" "A.B".toList 3 :=
    ⟨⟨1, "A.B 3"⟩, by decide +kernel, [['3']], by decide +kernel, ['3'], by decide,
      by decide +kernel⟩
  have hfive : BitTable.Lists "A.B 3\nA.B 5\n" "A.B".toList 5 :=
    ⟨⟨2, "A.B 5"⟩, by decide +kernel, [['5']], by decide +kernel, ['5'], by decide,
      by decide +kernel⟩
  have houtside : (2 : UInt32) ∉ AddressSet.parse "0x0\n" := by
    rw [← Std.ExtTreeSet.mem_toList, hregion]
    decide
  have hinside : (0 : UInt32) ∈ AddressSet.parse "0x0\n" := by
    rw [← Std.ExtTreeSet.mem_toList, hregion]
    decide
  have hone : Text.entries "F0x00000002W000B00\n" = [⟨1, "F0x00000002W000B00"⟩] := by
    decide +kernel
  have hboth : Text.entries "F0x00000002W000B00\nF0x00000000W000B01\n" =
      [⟨1, "F0x00000002W000B00"⟩, ⟨2, "F0x00000000W000B01"⟩] := by decide +kernel
  have hzero : BitAddress.parse "F0x00000000W000B01" = .ok ⟨0, 0, 1⟩ := by decide +kernel
  refine ⟨bitstream, profile, memory, _, hperform, ?_, hmade, ?_, ?_, ?_, ?_⟩
  · refine hother "outside" "F0x00000002W000B00\n" (by decide +kernel) ?_ ?_
    · intro line hline
      rw [hone, List.mem_singleton] at hline
      exact ⟨⟨2, 0, 0⟩, by rw [hline]; decide +kernel⟩
    · funext frame index
      simp only [Harness.Asks, hone, hboth, List.mem_cons, List.not_mem_nil, or_false,
        exists_eq_left, exists_eq_or_imp, hzero, Except.ok.injEq, exists_eq_left', hinside,
        not_true_eq_false, false_and]
  · intro address
    rw [haddresses, ← Std.ExtTreeSet.mem_toList, ← Std.ExtTreeSet.mem_toList, hframes, hregion]
    simp only [List.mem_cons, List.not_mem_nil, or_false]
    constructor
    · rintro (⟨rfl | rfl | rfl, hne⟩ | rfl)
      · exact .inl rfl
      · exact .inr rfl
      · exact absurd rfl hne
      · exact .inl rfl
    · rintro (rfl | rfl)
      · exact .inr rfl
      · exact .inl ⟨.inr (.inl rfl), by decide⟩
  · exact (hset 2 0).2 (.inl ⟨⟨1, "F0x00000002W000B00"⟩, by decide +kernel, ⟨2, 0, 0⟩,
      by decide +kernel, houtside, rfl, rfl⟩)
  · exact (hset 2 35).2 (.inr ⟨_, 3, hasks hthree, by decide +kernel⟩)
  · exact (hset 2 37).2 (.inr ⟨_, 5, hasks hfive, by decide +kernel⟩)

end CommandLine.Assembly

end ConfigStream
