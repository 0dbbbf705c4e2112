import ConfigStream.Proofs.Database.Assignment
import ConfigStream.Proofs.Database.FrameList
import ConfigStream.Proofs.Steps

/-!
# Tables that are kept

Bit tables are kept once they have been read, and nothing can be told from that. A database only
gains tables that the files have (`Database.Extends`), so a look-up gives what the files say
(`Database.Keeps.findFeature`). Whatever a database has been asked before, it answers and sets bits
as it would have when it was loaded (`Database.Reached.same_as_loaded`).
-/

namespace ConfigStream

variable {files : Files}

namespace Database

variable {device database before between after : Database}

/-! ## Databases that have read more -/

/-- A database after it may have read further tables. -/
structure Extends (files : Files) (before after : Database) : Prop where
  root : after.root = before.root
  tiles : after.tiles = before.tiles
  tables : ∀ type, after.tables[type]? = before.tables[type]? ∨
    (before.tables[type]? = none ∧
      ∃ table, readTable files before.root type = .ok table ∧ after.tables[type]? = some table)

theorem Extends.refl (database : Database) : Extends files database database :=
  ⟨rfl, rfl, fun _ => .inl rfl⟩

theorem Extends.trans (hfirst : Extends files before between)
    (hsecond : Extends files between after) : Extends files before after := by
  refine ⟨hsecond.root.trans hfirst.root, hsecond.tiles.trans hfirst.tiles, fun type => ?_⟩
  rcases hsecond.tables type with hsame | ⟨hnone, table, hread, hkept⟩
  · rw [hsame]
    exact hfirst.tables type
  · rcases hfirst.tables type with hsame | ⟨-, found, -, hfound⟩
    · exact .inr ⟨hsame.symm.trans hnone, table, hfirst.root ▸ hread, hkept⟩
    · cases hnone.symm.trans hfound

/-- A table that is asked for is read if it can be, and then kept. -/
theorem extends_table (files : Files) (database : Database) (type : String) :
    Extends files database (database.table files type).2 := by
  unfold Database.table
  cases hkept : database.tables[type]? with
  | some table => exact .refl database
  | none =>
      cases hread : readTable files database.root type with
      | error fault => exact .refl database
      | ok table =>
          refine ⟨rfl, rfl, fun other => ?_⟩
          by_cases hsame : type = other
          · subst hsame
            exact .inr ⟨hkept, table, hread, Std.ExtTreeMap.getElem?_insert_self⟩
          · left
            simp [Std.ExtTreeMap.getElem?_insert, hsame]

/-- A look-up reads no more than the table of one type. -/
theorem extends_findFeature (files : Files) (database : Database) (tile feature : String) :
    Extends files database (database.findFeature files tile feature).2 := by
  unfold Database.findFeature
  split
  · exact .refl database
  · rename_i placed hplaced
    have htable := extends_table files database placed.type
    split <;> rename_i hresult <;> rw [hresult] at htable
    · exact htable
    · split <;> exact htable

/-- Whether a table has been kept cannot be told from the table. -/
theorem Extends.table (h : Extends files before after) (type : String) :
    (after.table files type).1 = (before.table files type).1 := by
  unfold Database.table
  rcases h.tables type with hsame | ⟨hnone, table, hread, hkept⟩
  · rw [hsame, h.root]
    cases before.tables[type]? with
    | some table => rfl
    | none => cases readTable files before.root type <;> rfl
  · simp only [hkept, hnone, hread]

/-- A look-up answers by the tile, the table of its type and the feature. -/
theorem fst_findFeature (files : Files) (database : Database) (tile feature : String) :
    (database.findFeature files tile feature).1 =
      match database.tiles.get? tile with
      | none => .error (.unknownTile tile)
      | some placed =>
        match (database.table files placed.type).1 with
        | .error fault => .error fault
        | .ok table =>
          match table.bits? feature with
          | some bits => .ok (placed, bits)
          | none => .error (.unknownFeature tile feature) := by
  unfold Database.findFeature
  cases database.tiles.get? tile with
  | none => rfl
  | some placed =>
      cases hresult : database.table files placed.type with
      | mk result next =>
          cases result with
          | error fault => simp only [hresult]
          | ok table => cases hbits : table.bits? feature <;> simp only [hresult, hbits]

/-- What is looked up does not depend on the tables that have been read. -/
theorem Extends.findFeature (h : Extends files before after) (tile feature : String) :
    (after.findFeature files tile feature).1 = (before.findFeature files tile feature).1 := by
  rw [fst_findFeature, fst_findFeature, h.tiles]
  simp only [h.table]

/-! ## Databases with the tables of the files -/

/-- A database is that of a device, with tables that the files have. -/
structure Keeps (files : Files) (device database : Database) : Prop where
  root : database.root = device.root
  tiles : database.tiles = device.tiles
  tables : ∀ type table, database.tables[type]? = some table →
    readTable files device.root type = .ok table

/-- A database that has just been loaded is that of its directory and has no tables. -/
theorem tables_of_load {root : String} (h : load files root = .ok device) :
    device.root = root ∧ ∀ type : String, device.tables[type]? = none := by
  obtain ⟨_, -, _, -, _, -, _, -, rfl⟩ := load_eq_ok.1 h
  exact ⟨rfl, fun type => by simp⟩

/-- So it has no table that the files do not have. -/
theorem keeps_of_load {root : String} (h : load files root = .ok device) :
    Keeps files device device := by
  refine ⟨rfl, rfl, fun type table htable => ?_⟩
  cases ((tables_of_load h).2 type).symm.trans htable

/-- Tables that are read further are those that the files have. -/
theorem Keeps.extends (h : Keeps files device before) (hmore : Extends files before after) :
    Keeps files device after := by
  refine ⟨hmore.root.trans h.root, hmore.tiles.trans h.tiles, fun type table htable => ?_⟩
  rcases hmore.tables type with hsame | ⟨-, found, hread, hfound⟩
  · exact h.tables type table (hsame ▸ htable)
  · rw [← h.root, hread, ← Option.some.inj (hfound.symm.trans htable)]

/-- The table of a type is the one that the files have, whether or not it has been kept. -/
theorem Keeps.table (h : Keeps files device database) (type : String) :
    (database.table files type).1 = readTable files device.root type ∧
      Keeps files device (database.table files type).2 := by
  refine ⟨?_, h.extends (extends_table files database type)⟩
  unfold Database.table
  cases hkept : database.tables[type]? with
  | some table => exact (h.tables type table hkept).symm
  | none =>
      rw [← h.root]
      cases readTable files database.root type <;> rfl

/-! ## Look-ups -/

/-- A tile and the bits of one of its features, with its table read from the files. -/
def lookUp (files : Files) (device : Database) (tile feature : String) :
    Except DatabaseFault (Tile × List Nat) :=
  match device.tiles.get? tile with
  | none => .error (.unknownTile tile)
  | some placed =>
    match readTable files device.root placed.type with
    | .error fault => .error fault
    | .ok table =>
      match table.bits? feature with
      | some bits => .ok (placed, bits)
      | none => .error (.unknownFeature tile feature)

/-- What is looked up is what the files say. -/
theorem Keeps.findFeature (h : Keeps files device database) (tile feature : String) :
    (database.findFeature files tile feature).1 = device.lookUp files tile feature ∧
      Keeps files device (database.findFeature files tile feature).2 := by
  refine ⟨?_, h.extends (extends_findFeature files database tile feature)⟩
  rw [fst_findFeature, h.tiles, lookUp]
  simp only [h.table]

theorem readTable_eq_ok {root type : String} {table : BitTable} :
    readTable files root type = .ok table ↔
      ∃ text, files.readText (tablePath root type) = .ok text ∧
        BitTable.parse (tablePath root type) text = .ok table := by
  rw [readTable, Except.bind_eq_ok]
  simp only [Files.readInput_eq_ok]

/-- A look-up succeeds if and only if there is the tile, its table can be read, and the table has
the feature. -/
theorem lookUp_eq_ok {tile feature : String} {placed : Tile} {bits : List Nat} :
    device.lookUp files tile feature = .ok (placed, bits) ↔
      device.tiles.get? tile = some placed ∧ ∃ table,
        readTable files device.root placed.type = .ok table ∧
        table.bits? feature = some bits := by
  unfold lookUp
  cases device.tiles.get? tile with
  | none => simp
  | some found =>
      simp only [Option.some.injEq]
      cases htable : readTable files device.root found.type with
      | error fault =>
          simp only [reduceCtorEq, false_iff, not_and, not_exists]
          rintro rfl table hread
          cases htable.symm.trans hread
      | ok table =>
          cases hbits : table.bits? feature with
          | none =>
              simp only [hbits, reduceCtorEq, false_iff, not_and, not_exists]
              rintro rfl other hother hlisted
              obtain rfl := Except.ok.inj (htable.symm.trans hother)
              cases hbits.symm.trans hlisted
          | some listed =>
              simp only [hbits, Except.ok.injEq, Prod.mk.injEq]
              constructor
              · rintro ⟨rfl, rfl⟩
                exact ⟨rfl, table, htable, hbits⟩
              · rintro ⟨rfl, other, hother, hlisted⟩
                obtain rfl := Except.ok.inj (htable.symm.trans hother)
                exact ⟨rfl, Option.some.inj (hbits.symm.trans hlisted)⟩

end Database

/-! ## Features that are set -/

namespace Design

/-- What is read for a feature is what its look-up reads. -/
theorem database_assignFeature (files : Files) (design : Design) (tile feature : String) :
    (design.assignFeature files tile feature).1.database =
      (design.database.findFeature files tile feature).2 := by
  unfold assignFeature
  split <;> rename_i hfound <;> rw [hfound]

/-- A feature that is set reads no more than one table. -/
theorem extends_assignFeature (files : Files) (design : Design) (tile feature : String) :
    Database.Extends files design.database
      (design.assignFeature files tile feature).1.database := by
  rw [database_assignFeature]
  exact Database.extends_findFeature files design.database tile feature

/-- Two designs have the same memory, and databases that come from one by reading tables. -/
structure Alike (files : Files) (device : Database) (first second : Design) : Prop where
  memory : first.memory = second.memory
  first : Database.Extends files device first.database
  second : Database.Extends files device second.database

variable {device : Database} {first second : Design}

/-- Features are set alike whatever tables have been read. -/
theorem Alike.assignFeature (h : Alike files device first second) (tile feature : String) :
    Alike files device (first.assignFeature files tile feature).1
        (second.assignFeature files tile feature).1 ∧
      (first.assignFeature files tile feature).2 =
        (second.assignFeature files tile feature).2 := by
  have hfirst := h.first.trans (extends_assignFeature files first tile feature)
  have hsecond := h.second.trans (extends_assignFeature files second tile feature)
  have hsame := (h.first.findFeature tile feature).trans (h.second.findFeature tile feature).symm
  suffices hends : (first.assignFeature files tile feature).1.memory =
        (second.assignFeature files tile feature).1.memory ∧
      (first.assignFeature files tile feature).2 = (second.assignFeature files tile feature).2 from
    ⟨⟨hends.1, hfirst, hsecond⟩, hends.2⟩
  unfold Design.assignFeature
  cases hleft : first.database.findFeature files tile feature with
  | mk result database =>
      cases hright : second.database.findFeature files tile feature with
      | mk found other =>
          obtain rfl : result = found := by rwa [hleft, hright] at hsame
          cases result with
          | error fault => exact ⟨h.memory, rfl⟩
          | ok found => simp only [h.memory, and_self]

/-- So are texts of feature assignments. -/
theorem Alike.assignFeatures (h : Alike files device first second) (text : String) :
    Alike files device (first.assignFeatures files text).1 (second.assignFeatures files text).1 ∧
      (first.assignFeatures files text).2 = (second.assignFeatures files text).2 := by
  let related (work other : Design × Nat) : Prop :=
    Alike files device work.1 other.1 ∧ work.2 = other.2
  have hstep (work other : Design × Nat) (line : Text.Entry) (hwork : related work other) :
      related (featureLine files work line).1 (featureLine files other line).1 ∧
        (featureLine files work line).2 = (featureLine files other line).2 := by
    obtain ⟨hdesigns, hcount⟩ := hwork
    unfold featureLine
    cases tileFeature? line.text with
    | none => exact ⟨⟨hdesigns, hcount⟩, rfl⟩
    | some named =>
        obtain ⟨hends, hfailure⟩ := hdesigns.assignFeature named.1 named.2
        cases hleft : work.1.assignFeature files named.1 named.2 with
        | mk next failure =>
            cases hright : other.1.assignFeature files named.1 named.2 with
            | mk following fault =>
                rw [hleft, hright] at hends hfailure
                obtain rfl : failure = fault := hfailure
                cases failure <;> simp only [hleft, hright, hcount, hends, related, and_self]
  have hstart : related (first, 0) (second, 0) := ⟨h, rfl⟩
  obtain ⟨⟨hends, hcount⟩, hfailure⟩ := runSteps_related hstep hstart (Text.entries text)
  exact ⟨hends, congrArg₂ counted hcount hfailure⟩

end Design

namespace Database

/-! ## Histories -/

/-- A database comes from another by any look-ups, and by features set in any memories, whether or
not they fail. -/
inductive Reached (files : Files) (device : Database) : Database → Prop where
  | refl : Reached files device device
  | table {database : Database} (h : Reached files device database) (type : String) :
      Reached files device (database.table files type).2
  | findFeature {database : Database} (h : Reached files device database)
      (tile feature : String) : Reached files device (database.findFeature files tile feature).2
  | assignFeature {database : Database} (h : Reached files device database)
      (memory : FrameMemory) (tile feature : String) :
      Reached files device (Design.assignFeature files ⟨database, memory⟩ tile feature).1.database
  | assignFeatures {database : Database} (h : Reached files device database)
      (memory : FrameMemory) (text : String) :
      Reached files device (Design.assignFeatures files ⟨database, memory⟩ text).1.database

variable {device database : Database}

/-- Nothing that a database can be asked does more to it than reading tables. -/
theorem Reached.extends (h : Reached files device database) : Extends files device database := by
  induction h with
  | refl => exact .refl device
  | @table database _ type ih => exact ih.trans (extends_table files database type)
  | @findFeature database _ tile feature ih =>
      exact ih.trans (extends_findFeature files database tile feature)
  | @assignFeature database _ memory tile feature ih =>
      exact ih.trans (Design.extends_assignFeature files ⟨database, memory⟩ tile feature)
  | @assignFeatures database _ memory text ih =>
      have halike : Design.Alike files device ⟨database, memory⟩ ⟨database, memory⟩ := ⟨rfl, ih, ih⟩
      exact (halike.assignFeatures text).1.first

/-- Whatever a database has been asked since it was loaded, it gives every table and every look-up,
and sets features in a memory or fails, as when it was loaded. The tables it has kept are those of
the files. One that cannot be read is not kept, so that asking for it fails again and changes
nothing. -/
theorem Reached.same_as_loaded {root : String} (hload : load files root = .ok device)
    (h : Reached files device database) :
    (∀ type, (database.table files type).1 = (device.table files type).1) ∧
      (∀ tile feature, (database.findFeature files tile feature).1 =
        (device.findFeature files tile feature).1) ∧
      (∀ memory tile feature,
        (Design.assignFeature files ⟨database, memory⟩ tile feature).2 =
            (Design.assignFeature files ⟨device, memory⟩ tile feature).2 ∧
          (Design.assignFeature files ⟨database, memory⟩ tile feature).1.memory =
            (Design.assignFeature files ⟨device, memory⟩ tile feature).1.memory) ∧
      (∀ memory text,
        (Design.assignFeatures files ⟨database, memory⟩ text).2 =
            (Design.assignFeatures files ⟨device, memory⟩ text).2 ∧
          (Design.assignFeatures files ⟨database, memory⟩ text).1.memory =
            (Design.assignFeatures files ⟨device, memory⟩ text).1.memory) ∧
      (∀ (type : String) table, database.tables[type]? = some table →
        readTable files root type = .ok table) ∧
      ∀ type fault, readTable files root type = .error fault →
        database.tables[type]? = none ∧ database.table files type = (.error fault, database) := by
  have hmore := h.extends
  obtain ⟨hroot, -⟩ := tables_of_load hload
  have halike (memory : FrameMemory) :
      Design.Alike files device ⟨database, memory⟩ ⟨device, memory⟩ := ⟨rfl, hmore, .refl device⟩
  have hkept (type : String) (table : BitTable) (htable : database.tables[type]? = some table) :
      readTable files root type = .ok table :=
    hroot ▸ ((keeps_of_load hload).extends hmore).tables type table htable
  refine ⟨hmore.table, hmore.findFeature, fun memory tile feature => ?_, fun memory text => ?_,
    hkept, fun type fault hfails => ?_⟩
  · obtain ⟨hends, hfailure⟩ := (halike memory).assignFeature tile feature
    exact ⟨hfailure, hends.memory⟩
  · obtain ⟨hends, hresult⟩ := (halike memory).assignFeatures text
    exact ⟨hresult, hends.memory⟩
  · have hnone : database.tables[type]? = none := by
      cases htable : database.tables[type]? with
      | none => rfl
      | some table => cases hfails.symm.trans (hkept type table htable)
    refine ⟨hnone, ?_⟩
    unfold Database.table
    simp only [hnone, hmore.root, hroot, hfails]

/-- The files of a device with two tiles, of which only one has a type with a bit table. -/
def cellFiles : Files :=
  (Disk.ofFiles [("db/frames.txt", "0x2\n".toUTF8.data.toList),
    ("db/tiles.txt",
      ".tile T CELL 0 0\nframe 0x2 word 32 word 8\n.tile U GONE 1 0\n".toUTF8.data.toList),
    ("db/CELL.bits", "A 3\n".toUTF8.data.toList)]).toFiles

/-- A table that has been read is kept, and one that is missing is missing again. -/
theorem Reached.same_as_loaded_missing :
    ∃ device database, load cellFiles "db" = .ok device ∧ Reached cellFiles device database ∧
      database.tables["CELL"]?.isSome = true ∧
      (database.findFeature cellFiles "T" "A").1 = .ok (⟨"T", "CELL", 0, 0, [⟨2, 32, 8⟩]⟩, [3]) ∧
      readTable cellFiles "db" "GONE" = .error (.unreadable "db/GONE.bits" .notFound) ∧
      database.table cellFiles "GONE" =
        (.error (.unreadable "db/GONE.bits" .notFound), database) := by
  have hloaded : (load cellFiles "db").map (fun device =>
      ((device.table cellFiles "CELL").2.table cellFiles "GONE").2.tables["CELL"]?.isSome) =
        .ok true := by decide +kernel
  have hfound : (load cellFiles "db").map (fun device =>
      (device.findFeature cellFiles "T" "A").1) =
        .ok (.ok (⟨"T", "CELL", 0, 0, [⟨2, 32, 8⟩]⟩, [3])) := by decide +kernel
  have hinput : cellFiles.readInput (tablePath "db" "GONE") =
      .error (.unreadable "db/GONE.bits" .notFound) := by decide +kernel
  have hmissing : readTable cellFiles "db" "GONE" =
      .error (.unreadable "db/GONE.bits" .notFound) := by
    rw [readTable, hinput]
    rfl
  cases hload : load cellFiles "db" with
  | error fault => rw [hload] at hloaded; cases hloaded
  | ok device =>
      rw [hload] at hloaded hfound
      have hreached : Reached cellFiles device
          ((device.table cellFiles "CELL").2.table cellFiles "GONE").2 :=
        (Reached.refl.table _).table _
      obtain ⟨-, hlook, -, -, -, hfails⟩ := hreached.same_as_loaded hload
      exact ⟨device, _, rfl, hreached, Except.ok.inj hloaded,
        (hlook "T" "A").trans (Except.ok.inj hfound), hmissing, (hfails "GONE" _ hmissing).2⟩

end Database

end ConfigStream
