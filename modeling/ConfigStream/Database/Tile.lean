import ConfigStream.Database.Fault
import ConfigStream.Text.Fields
import ConfigStream.Text.Lines
import Std.Data.ExtTreeMap

/-!
# Tiles

A tile is a named piece of the device with a type, a place, and runs of frame bits that make up its
own bits in order. A tile list has a header line `.tile NAME TYPE X Y` for each tile, followed by
its runs, `frame ADDRESS word OFFSET word SIZE`; other lines do not count. A tile named again has
what its last header and the runs after that say, at the place of its first.
-/

namespace ConfigStream

/-- A run of bits in a frame. -/
structure BitRun where
  frame : UInt32
  offset : Nat
  size : Nat
deriving DecidableEq, Repr

/-- A placed tile. -/
structure Tile where
  name : String
  type : String
  x : Int
  y : Int
  runs : List BitRun
deriving DecidableEq, Repr

namespace BitRun

/-- The frame and frame bit of a tile bit, in runs that begin with tile bit `base`. Positions have
64 bits; where one would not fit, there is no bit. -/
def locateFrom? (base : Nat) : List BitRun → Nat → Option (UInt32 × Nat)
  | [], _ => none
  | run :: runs, bit =>
    if base + run.size < Text.limit64 then
      if bit < base + run.size then
        let place := run.offset + (bit - base)
        if place < Text.limit64 then some (run.frame, place) else none
      else locateFrom? (base + run.size) runs bit
    else none

/-- The frame and frame bit of a tile bit, in the runs that make up the tile. -/
def locate? (runs : List BitRun) (bit : Nat) : Option (UInt32 × Nat) :=
  locateFrom? 0 runs bit

end BitRun

namespace Tile

/-- The frame and frame bit of a tile bit. -/
def locate? (tile : Tile) (bit : Nat) : Option (UInt32 × Nat) :=
  BitRun.locate? tile.runs bit

/-- The number of tile bits. -/
def bitCount (tile : Tile) : Nat := tile.runs.foldl (fun count run => count + run.size) 0

/-- What a line of a tile list says. -/
inductive Line where
  | header (tile : Tile)
  | run (run : BitRun)
  | other
deriving DecidableEq, Repr

/-- Coordinates are at least `-coordinateBound` and below it. -/
def coordinateBound : Nat := 0x80000000

/-- Read a coordinate. -/
def coordinate (text : List Char) : Except LineFault Int :=
  match Text.signed? coordinateBound text with
  | some value => .ok value
  | none => .error (.coordinate (String.ofList text))

/-- Read an offset or a size. -/
def number (text : List Char) : Except LineFault Nat :=
  match Text.unsigned? 10 Text.limit64 text with
  | some value => .ok value
  | none => .error (.number (String.ofList text))

/-- Read a tile header from its fields. -/
def headerLine (line : String) : List (List Char) → Except LineFault Line
  | _ :: name :: type :: x :: y :: _ => do
    let x ← coordinate x
    let y ← coordinate y
    pure (.header ⟨String.ofList name, String.ofList type, x, y, []⟩)
  | _ => .error (.tileHeader line)

/-- Read a run of bits from its fields. It has to lie in a frame. -/
def runLine (line : String) : List (List Char) → Except LineFault Line
  | _ :: address :: _ :: offset :: _ :: size :: _ =>
    match Text.leadingHex? address with
    | none => .error (.address (String.ofList address))
    | some frame => do
      let offset ← number offset
      let size ← number size
      if offset + size ≤ Frame.bitCount then pure (.run ⟨frame, offset, size⟩)
      else .error (.runTooLong offset size)
  | _ => .error (.frameRun line)

/-- Read a line of a tile list. -/
def Line.parse (line : String) : Except LineFault Line :=
  let fields := Text.fields line.toList
  if fields.head? = some ".tile".toList then headerLine line fields
  else if fields.head? = some "frame".toList then runLine line fields
  else .ok .other

/-- Add a line to the lines before it that say something. A run has to come after a header. -/
def Line.addTo (before : Array Line) : Line → Except LineFault (Array Line)
  | .header tile => .ok (before.push (.header tile))
  | .run added =>
    if before.isEmpty then .error .runOutsideTile else .ok (before.push (.run added))
  | .other => .ok before

/-- Read a line of a tile list and add it to the lines before it. -/
def addLine (path : String) (before : Array Line) (entry : Text.Entry) :
    Except DatabaseFault (Array Line) :=
  ((Line.parse entry.text).bind (Line.addTo before)).mapError (.malformed path entry.number)

/-- What a line adds in front of the lines after it, which begin with runs that lack a header, and
then describe tiles. -/
def Line.prepend : Line → List BitRun × List Tile → List BitRun × List Tile
  | .header tile, (runs, tiles) => ([], { tile with runs } :: tiles)
  | .run first, (runs, tiles) => (first :: runs, tiles)
  | .other, after => after

/-- The tiles that lines describe: a header begins a tile, and the runs up to the next header are
its own. -/
def ofLines (lines : List Line) : List Tile := (lines.foldr Line.prepend ([], [])).2

/-- Read a tile list: the tiles in the order of their headers, a tile named again as often as it is
named. -/
def parseAll (path text : String) : Except DatabaseFault (List Tile) :=
  ((Text.entries text).foldlM (addLine path) #[]).map fun lines => ofLines lines.toList

end Tile

/-- Tiles by name, in the order in which the names were first given. -/
structure Tiles where
  names : Array String
  byName : Std.ExtTreeMap String Tile

namespace Tiles

/-- No tiles. -/
def empty : Tiles := ⟨#[], ∅⟩

/-- The tile of a name. -/
def get? (tiles : Tiles) (name : String) : Option Tile := tiles.byName[name]?

/-- The tiles with one more, which takes the place of the one of its name. -/
def insert (tiles : Tiles) (tile : Tile) : Tiles where
  names := if tiles.byName.contains tile.name then tiles.names else tiles.names.push tile.name
  byName := tiles.byName.insert tile.name tile

/-- The tiles of a list, of which the last of each name counts. -/
def ofList (tiles : List Tile) : Tiles := tiles.foldl insert empty

/-- The tiles in order. -/
def toList (tiles : Tiles) : List Tile := tiles.names.toList.filterMap tiles.get?

/-- Read a tile list. -/
def parse (path text : String) : Except DatabaseFault Tiles :=
  (Tile.parseAll path text).map ofList

end Tiles

end ConfigStream
