import ConfigStream.Database.Basic
import ConfigStream.Steps

/-!
# Assigning bits

Bits are set in three ways: by the number of a bit in a tile, by a feature of a tile, which is all
bits that the table of the tile's type lists for it, and by a harness, a list of bit addresses.
Where a bit cannot be set, the work ends and the bits set before stay.
-/

namespace ConfigStream

/-- Set one bit of a tile. -/
def FrameMemory.assignTileBit (memory : FrameMemory) (tile : Tile) (bit : Nat) :
    Except DatabaseFault FrameMemory :=
  match tile.locate? bit with
  | none => .error (.badTileBit tile.name bit)
  | some (frame, place) =>
    match memory.setBit frame place with
    | .ok memory => .ok memory
    | .error fault => .error (.refused fault)

/-- Set bits of a tile up to the first that cannot be set. -/
def FrameMemory.assignTileBits (memory : FrameMemory) (tile : Tile) (bits : List Nat) :
    FrameMemory × Option DatabaseFault :=
  runSteps
    (fun memory bit =>
      match memory.assignTileBit tile bit with
      | .ok memory => (memory, none)
      | .error fault => (memory, some fault))
    memory bits

/-- A line of a harness: set its bit, unless its frame is in the region. Bits set are counted. -/
def FrameMemory.harnessLine (region : AddressSet) (work : FrameMemory × Nat)
    (line : Text.Entry) : (FrameMemory × Nat) × Option DatabaseFault :=
  let (memory, count) := work
  match BitAddress.parse line.text with
  | .error _ => (work, some (.malformedEntry line.number line.text))
  | .ok address =>
    if region.contains address.frame then (work, none)
    else match memory.setBit address.frame address.index with
      | .ok memory => ((memory, count + 1), none)
      | .error fault => (work, some (.refused fault))

/-- What has been worked through, or why the work ended. -/
def counted (count : Nat) : Option ε → Except ε Nat
  | none => .ok count
  | some failure => .error failure

/-- Set the bits of a harness outside a region; the result counts the bits set. -/
def FrameMemory.assignHarness (memory : FrameMemory) (text : String) (region : AddressSet) :
    FrameMemory × Except DatabaseFault Nat :=
  let ((memory, count), failure) :=
    runSteps (harnessLine region) (memory, 0) (Text.entries text)
  (memory, counted count failure)

/-- A device and the frames that are filled for it. -/
structure Design where
  database : Database
  memory : FrameMemory

namespace Design

/-- Set every bit of a feature of a tile. -/
def assignFeature (files : Files) (design : Design) (tile feature : String) :
    Design × Option DatabaseFault :=
  match design.database.findFeature files tile feature with
  | (.error fault, database) => ({ design with database }, some fault)
  | (.ok (placed, bits), database) =>
    let (memory, failure) := design.memory.assignTileBits placed bits
    (⟨database, memory⟩, failure)

/-- The tile and the feature of a line, which a dot separates. The feature may have dots in it. -/
def tileFeature? (line : String) : Option (String × String) :=
  (Text.cut? '.' line.toList).map fun (tile, feature) =>
    (String.ofList tile, String.ofList feature)

/-- A line of feature assignments. One without a dot is skipped; the others are counted. -/
def featureLine (files : Files) (work : Design × Nat) (line : Text.Entry) :
    (Design × Nat) × Option DatabaseFault :=
  let (design, count) := work
  match tileFeature? line.text with
  | none => (work, none)
  | some (tile, feature) =>
    match design.assignFeature files tile feature with
    | (design, none) => ((design, count + 1), none)
    | (design, some fault) => ((design, count), some fault)

/-- Set the bits of all features of a text; the result counts the features. -/
def assignFeatures (files : Files) (design : Design) (text : String) :
    Design × Except DatabaseFault Nat :=
  let ((design, count), failure) :=
    runSteps (featureLine files) (design, 0) (Text.entries text)
  (design, counted count failure)

end Design

end ConfigStream
