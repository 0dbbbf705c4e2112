import ConfigStream.Proofs.Database.BitTable
import ConfigStream.Proofs.Database.Setting
import ConfigStream.Proofs.Database.Tables
import ConfigStream.Proofs.Text.Fields

/-!
# What feature assignments set

A look-up gives what the files say, so a text of feature assignments that is worked through to its
end sets the places of exactly the tile bits that its lines ask for
(`Design.locates_assignFeatures`).
-/

namespace ConfigStream

variable {files : Files}

/-! ## Lines -/

namespace Database

/-- A line of feature assignments asks for a bit of a tile: before its first dot stands the name of
the tile, and after it a feature for which the table of the tile's type lists the bit. -/
def Names (files : Files) (device : Database) (line : String) (tile : Tile) (bit : Nat) : Prop :=
  ∃ name feature, line.toList = name ++ '.' :: feature ∧ '.' ∉ name ∧
    device.tiles.get? (String.ofList name) = some tile ∧
    ∃ table, files.readText (tablePath device.root tile.type) = .ok table ∧
      BitTable.Lists table feature bit

variable {device : Database}

/-- The tile bits that a line asks for are those that are looked up. -/
theorem names_iff {line : String} {name feature : List Char} {placed tile : Tile} {bits : List Nat}
    {bit : Nat} (hline : line.toList = name ++ '.' :: feature) (hname : '.' ∉ name)
    (h : device.lookUp files (String.ofList name) (String.ofList feature) = .ok (placed, bits)) :
    device.Names files line tile bit ↔ tile = placed ∧ bit ∈ bits := by
  obtain ⟨hget, table, htable, hbits⟩ := lookUp_eq_ok.1 h
  obtain ⟨text, htext, hparse⟩ := readTable_eq_ok.1 htable
  have hlists := BitTable.mem_bits?_parse hparse (String.ofList feature) bit
  rw [hbits, Option.getD_some, String.toList_ofList] at hlists
  rw [hlists]
  constructor
  · rintro ⟨other, part, hsplit, hother, hfound, otherText, hread, hlisted⟩
    -- A line has one first dot.
    obtain ⟨rfl, rfl⟩ : other = name ∧ part = feature := by
      have hcut := Text.cut?_eq_some.2 ⟨hsplit, hother⟩
      have hsame := Text.cut?_eq_some.2 ⟨hline, hname⟩
      exact Prod.mk.inj (Option.some.inj (hcut.symm.trans hsame))
    obtain rfl : placed = tile := Option.some.inj (hget.symm.trans hfound)
    obtain rfl : text = otherText := Except.ok.inj (htext.symm.trans hread)
    exact ⟨rfl, hlisted⟩
  · rintro ⟨rfl, hlisted⟩
    exact ⟨name, feature, hline, hname, hget, text, htext, hlisted⟩

/-- A line without a dot asks for nothing. -/
theorem not_names {line : String} (h : Text.cut? '.' line.toList = none) (tile : Tile) (bit : Nat) :
    ¬ device.Names files line tile bit := by
  rintro ⟨name, feature, hline, hname, -⟩
  cases h.symm.trans (Text.cut?_eq_some.2 ⟨hline, hname⟩)

end Database

/-! ## Tile bits -/

theorem FrameMemory.assignTileBit_eq_ok {memory next : FrameMemory} {tile : Tile} {bit : Nat} :
    memory.assignTileBit tile bit = .ok next ↔
      ∃ place, tile.locate? bit = some place ∧ memory.setBit place.1 place.2 = .ok next := by
  unfold assignTileBit
  cases tile.locate? bit with
  | none => simp
  | some place =>
      simp only [Option.some.injEq, exists_eq_left']
      cases memory.setBit place.1 place.2 <;> simp

/-- The bits of a tile that are worked through to the end all have places, and these are set. -/
theorem FrameMemory.assignTileBits_eq_none {memory filled : FrameMemory} {tile : Tile}
    {bits : List Nat} :
    memory.assignTileBits tile bits = (filled, none) ↔
      ∃ places, bits.map tile.locate? = places.map some ∧ memory.setBits places = .ok filled := by
  induction bits generalizing memory with
  | nil =>
      simp only [assignTileBits, runSteps, List.map_nil, List.nil_eq, List.map_eq_nil_iff,
        exists_eq_left, setBits_nil, Prod.mk.injEq, and_true, Except.ok.injEq]
  | cons bit bits ih =>
      rw [assignTileBits, runSteps_cons_eq_none]
      constructor
      · rintro ⟨next, hstep, hrest⟩
        cases hbit : memory.assignTileBit tile bit with
        | error fault => simp [hbit] at hstep
        | ok following =>
            obtain rfl : following = next := by simpa [hbit] using hstep
            obtain ⟨place, hplace, hnext⟩ := assignTileBit_eq_ok.1 hbit
            obtain ⟨places, hplaces, hfilled⟩ := ih.1 hrest
            exact ⟨place :: places, congrArg₂ List.cons hplace hplaces,
              setBits_cons.2 ⟨following, hnext, hfilled⟩⟩
      · rintro ⟨places, hplaces, hfilled⟩
        cases places with
        | nil => cases hplaces
        | cons place places =>
            obtain ⟨hplace, hplaces⟩ := List.cons.inj hplaces
            obtain ⟨next, hnext, hfilled⟩ := setBits_cons.1 hfilled
            have hbit := assignTileBit_eq_ok.2 ⟨place, hplace, hnext⟩
            exact ⟨next, by simp [hbit], ih.2 ⟨places, hplaces, hfilled⟩⟩

/-! ## Feature assignments -/

namespace Database

/-- Places are those of the tile bits that lines ask for, and every such bit has one. -/
structure Locates (files : Files) (device : Database) (lines : List Text.Entry)
    (places : List (UInt32 × Nat)) : Prop where
  every : ∀ line ∈ lines, ∀ tile bit, device.Names files line.text tile bit →
    ∃ place ∈ places, tile.locate? bit = some place
  only : ∀ place ∈ places, ∃ line ∈ lines, ∃ tile bit, device.Names files line.text tile bit ∧
    tile.locate? bit = some place

variable {device : Database} {line : Text.Entry} {lines : List Text.Entry}
  {places others : List (UInt32 × Nat)}

theorem Locates.nil : device.Locates files [] [] := ⟨by simp, by simp⟩

theorem Locates.cons (h : device.Locates files [line] places)
    (hlines : device.Locates files lines others) :
    device.Locates files (line :: lines) (places ++ others) := by
  constructor
  · intro said hsaid tile bit hnames
    rcases List.mem_cons.1 hsaid with rfl | hsaid
    · obtain ⟨place, hplace, hlocate⟩ := h.every said List.mem_cons_self tile bit hnames
      exact ⟨place, List.mem_append_left _ hplace, hlocate⟩
    · obtain ⟨place, hplace, hlocate⟩ := hlines.every said hsaid tile bit hnames
      exact ⟨place, List.mem_append_right _ hplace, hlocate⟩
  · intro place hplace
    rcases List.mem_append.1 hplace with hplace | hplace
    · obtain ⟨said, hsaid, hfound⟩ := h.only place hplace
      obtain rfl := List.mem_singleton.1 hsaid
      exact ⟨said, List.mem_cons_self, hfound⟩
    · obtain ⟨said, hsaid, hfound⟩ := hlines.only place hplace
      exact ⟨said, List.mem_cons_of_mem _ hsaid, hfound⟩

/-- The places of the bits of a feature that is looked up are those of the bits that its line asks
for. -/
theorem locates_of_lookUp {name feature : List Char} {placed : Tile} {bits : List Nat}
    (hline : line.text.toList = name ++ '.' :: feature) (hname : '.' ∉ name)
    (h : device.lookUp files (String.ofList name) (String.ofList feature) = .ok (placed, bits))
    (hplaces : bits.map placed.locate? = places.map some) :
    device.Locates files [line] places := by
  constructor
  · intro said hsaid tile bit hnames
    obtain rfl := List.mem_singleton.1 hsaid
    obtain ⟨rfl, hbit⟩ := (names_iff hline hname h).1 hnames
    exact exists_of_map_eq hplaces hbit
  · intro place hplace
    obtain ⟨bit, hbit, hlocate⟩ :=
      (mem_iff_of_map_eq (fun _ _ => Option.some.inj) hplaces).1 hplace
    exact ⟨line, List.mem_cons_self, placed, bit, (names_iff hline hname h).2 ⟨rfl, hbit⟩,
      hlocate⟩

end Database

namespace Design

open Database

variable {device : Database} {design next : Design} {line : Text.Entry} {lines : List Text.Entry}
  {count total : Nat}

/-- A feature can be set if and only if it can be looked up, its bits have places, and these can be
set. -/
theorem exists_assignFeature {filled : FrameMemory} {tile feature : String} :
    (∃ next, design.assignFeature files tile feature = (next, none) ∧ next.memory = filled) ↔
      ∃ placed bits places,
        (design.database.findFeature files tile feature).1 = .ok (placed, bits) ∧
        bits.map placed.locate? = places.map some ∧
        design.memory.setBits places = .ok filled := by
  unfold assignFeature
  cases design.database.findFeature files tile feature with
  | mk result database =>
      cases result with
      | error fault => simp
      | ok found =>
          obtain ⟨placed, bits⟩ := found
          cases hassign : design.memory.assignTileBits placed bits with
          | mk last failure =>
              simp only [hassign, Except.ok.injEq, Prod.mk.injEq]
              constructor
              · rintro ⟨next, ⟨rfl, rfl⟩, rfl⟩
                obtain ⟨places, hplaces, hset⟩ := FrameMemory.assignTileBits_eq_none.1 hassign
                exact ⟨placed, bits, places, ⟨rfl, rfl⟩, hplaces, hset⟩
              · rintro ⟨other, listed, places, ⟨rfl, rfl⟩, hplaces, hset⟩
                have hnone := FrameMemory.assignTileBits_eq_none.2 ⟨places, hplaces, hset⟩
                obtain ⟨rfl, rfl⟩ := Prod.mk.inj (hassign.symm.trans hnone)
                exact ⟨_, ⟨rfl, rfl⟩, rfl⟩

/-- A feature that can be set is looked up as the files have it, and the places of its bits are
set. -/
theorem assignFeature_eq_none {tile feature : String}
    (hkeeps : Keeps files device design.database)
    (h : design.assignFeature files tile feature = (next, none)) :
    Keeps files device next.database ∧ ∃ placed bits places,
      device.lookUp files tile feature = .ok (placed, bits) ∧
      bits.map placed.locate? = places.map some ∧
      design.memory.setBits places = .ok next.memory := by
  obtain ⟨hfound, hafter⟩ := hkeeps.findFeature tile feature
  obtain ⟨placed, bits, places, hresult, hplaces, hset⟩ :=
    exists_assignFeature.1 ⟨next, h, rfl⟩
  have hdatabase := database_assignFeature files design tile feature
  rw [h] at hdatabase
  exact ⟨hdatabase ▸ hafter, placed, bits, places, hfound.symm.trans hresult, hplaces, hset⟩

/-- A line that does not fail leaves tables that the files have, and sets the places of the tile
bits it asks for. -/
theorem featureLine_eq_none (hkeeps : Keeps files device design.database)
    (h : featureLine files (design, count) line = ((next, total), none)) :
    Keeps files device next.database ∧ ∃ places, device.Locates files [line] places ∧
      design.memory.setBits places = .ok next.memory := by
  unfold featureLine tileFeature? at h
  cases hcut : Text.cut? '.' line.text.toList with
  | none =>
      simp only [hcut, Option.map_none, Prod.mk.injEq, and_true] at h
      obtain ⟨rfl, rfl⟩ := h
      refine ⟨hkeeps, [], ⟨?_, by simp⟩, rfl⟩
      intro said hsaid tile bit hnames
      obtain rfl := List.mem_singleton.1 hsaid
      exact absurd hnames (not_names hcut tile bit)
  | some parts =>
      obtain ⟨name, feature⟩ := parts
      obtain ⟨hline, hname⟩ := Text.cut?_eq_some.1 hcut
      simp only [hcut, Option.map_some] at h
      cases hassign : design.assignFeature files (String.ofList name) (String.ofList feature) with
      | mk following failure =>
          rw [hassign] at h
          cases failure with
          | some fault => simp at h
          | none =>
              simp only [Prod.mk.injEq, and_true] at h
              obtain ⟨rfl, -⟩ := h
              obtain ⟨hafter, placed, bits, places, hfound, hplaces, hfilled⟩ :=
                assignFeature_eq_none hkeeps hassign
              exact ⟨hafter, places, locates_of_lookUp hline hname hfound hplaces, hfilled⟩

theorem runSteps_featureLine (hkeeps : Keeps files device design.database)
    (h : runSteps (featureLine files) (design, count) lines = ((next, total), none)) :
    ∃ places, device.Locates files lines places ∧
      design.memory.setBits places = .ok next.memory := by
  induction lines generalizing design count with
  | nil =>
      obtain ⟨hwork, -⟩ := Prod.mk.inj h
      obtain ⟨rfl, -⟩ := Prod.mk.inj hwork
      exact ⟨[], .nil, rfl⟩
  | cons line lines ih =>
      obtain ⟨⟨later, seen⟩, hline, hlines⟩ := runSteps_cons_eq_none.1 h
      obtain ⟨hlater, places, hplaces, hset⟩ := featureLine_eq_none hkeeps hline
      obtain ⟨others, hothers, hfilled⟩ := ih hlater hlines
      exact ⟨places ++ others, hplaces.cons hothers,
        FrameMemory.setBits_append.2 ⟨later.memory, hset, hfilled⟩⟩

/-- Feature assignments that are worked through to their end set the places of the tile bits that
the lines ask for. -/
theorem locates_assignFeatures {text : String} (hkeeps : Keeps files device design.database)
    (h : design.assignFeatures files text = (next, .ok count)) :
    ∃ places, device.Locates files (Text.entries text) places ∧
      design.memory.setBits places = .ok next.memory := by
  rw [assignFeatures_eq, counted_eq_ok] at h
  exact runSteps_featureLine hkeeps h

end Design

end ConfigStream
