import ConfigStream.Database.BitTable
import ConfigStream.Database.FrameList
import ConfigStream.Database.Tile
import ConfigStream.Disk.Basic
import ConfigStream.Frame.Memory

/-!
# Device databases

A database directory describes a device: `frames.txt` lists its frames, `tiles.txt` its tiles, and a
file for each tile type has that type's bit table. Tables are read when first needed and kept; one
that cannot be read is tried again the next time.
-/

namespace ConfigStream

/-- The device a directory describes, with the bit tables read so far. -/
structure Database where
  root : String
  frames : AddressSet
  tiles : Tiles
  tables : Std.ExtTreeMap String BitTable

/-- The text of an input file. -/
def Files.readInput (files : Files) (path : String) : Except DatabaseFault String :=
  match files.readText path with
  | .ok text => .ok text
  | .error fault => .error (.unreadable path fault)

namespace Database

/-- The list of a directory's frames. -/
def framesPath (root : String) : String := Path.join root "frames.txt"

/-- The list of a directory's tiles. -/
def tilesPath (root : String) : String := Path.join root "tiles.txt"

/-- The bit table of a tile type. -/
def tablePath (root type : String) : String := Path.join root (type ++ ".bits")

/-- Load the frames and tiles of a directory. -/
def load (files : Files) (root : String) : Except DatabaseFault Database := do
  let frames ← files.readInput (framesPath root)
  let frames ← AddressSet.parseStrict (framesPath root) frames
  let tiles ← files.readInput (tilesPath root)
  let tiles ← Tiles.parse (tilesPath root) tiles
  pure ⟨root, frames, tiles, ∅⟩

/-- Empty frames for the whole device. -/
def blankMemory (database : Database) : FrameMemory := .ofAddresses database.frames.frameAddresses

/-- The frames of the device, one after the other in address order. -/
def frameOrder (database : Database) : FrameOrder := .ofAddresses database.frames.frameAddresses

/-- Read the bit table of a tile type. -/
def readTable (files : Files) (root type : String) : Except DatabaseFault BitTable := do
  let text ← files.readInput (tablePath root type)
  BitTable.parse (tablePath root type) text

/-- The bit table of a tile type, and the database that has it. -/
def table (files : Files) (database : Database) (type : String) :
    Except DatabaseFault BitTable × Database :=
  match database.tables[type]? with
  | some table => (.ok table, database)
  | none =>
    match readTable files database.root type with
    | .ok table => (.ok table, { database with tables := database.tables.insert type table })
    | .error fault => (.error fault, database)

/-- A tile and the bits of one of its features, and the database after the look-up. -/
def findFeature (files : Files) (database : Database) (tile feature : String) :
    Except DatabaseFault (Tile × List Nat) × Database :=
  match database.tiles.get? tile with
  | none => (.error (.unknownTile tile), database)
  | some placed =>
    match database.table files placed.type with
    | (.error fault, database) => (.error fault, database)
    | (.ok table, database) =>
      match table.bits? feature with
      | some bits => (.ok (placed, bits), database)
      | none => (.error (.unknownFeature tile feature), database)

end Database

/-- Read a list of addresses from a file. -/
def AddressSet.read (files : Files) (path : String) : Except DatabaseFault AddressSet :=
  (files.readInput path).map AddressSet.parse

/-- The frames listed in a file, one after the other in address order. -/
def FrameOrder.read (files : Files) (path : String) : Except DatabaseFault FrameOrder :=
  (AddressSet.read files path).map fun addresses => .ofAddresses addresses.frameAddresses

end ConfigStream
