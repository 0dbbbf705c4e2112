import ConfigStream.Disk.Fault
import ConfigStream.Fault
import ConfigStream.Frame.Layout

/-!
# What can go wrong with a database

The causes for which a database cannot be loaded or a bit cannot be assigned, and their wording.
-/

namespace ConfigStream

/-- What is wrong with a line of a database file. -/
inductive LineFault where
  | address (text : String)
  | tileHeader (line : String)
  | coordinate (text : String)
  | frameRun (line : String)
  | number (text : String)
  | runTooLong (offset size : Nat)
  | runOutsideTile
  | featureBit (text feature : String)
deriving DecidableEq, Repr

/-- The wording of a line fault. -/
def LineFault.message : LineFault → String
  | .address text => "invalid frame address '" ++ text ++ "'"
  | .tileHeader line => "incomplete tile header '" ++ line ++ "'"
  | .coordinate text => "invalid coordinate '" ++ text ++ "'"
  | .frameRun line => "incomplete frame range '" ++ line ++ "'"
  | .number text => "invalid number '" ++ text ++ "'"
  | .runTooLong offset size =>
    "range " ++ toString offset ++ "+" ++ toString size ++ " exceeds the " ++
      toString Frame.bitCount ++ " bits of a frame"
  | .runOutsideTile => "frame range outside a tile"
  | .featureBit text feature => "invalid bit '" ++ text ++ "' for feature " ++ feature

/-- Why a database cannot be loaded or a bit cannot be assigned. -/
inductive DatabaseFault where
  /-- A file cannot be read. -/
  | unreadable (path : String) (fault : FileFault)
  /-- A line of a database file is malformed. -/
  | malformed (path : String) (line : Nat) (fault : LineFault)
  /-- A line of a harness is no bit address. -/
  | malformedEntry (line : Nat) (text : String)
  | unknownTile (tile : String)
  | unknownFeature (tile feature : String)
  /-- The tile does not have the bit. -/
  | badTileBit (tile : String) (bit : Nat)
  /-- The frame memory refuses the bit. -/
  | refused (fault : Fault)
deriving DecidableEq, Repr

/-- The wording of a database fault. -/
def DatabaseFault.message : DatabaseFault → String
  | .unreadable path fault => "Failed to read " ++ path ++ ": " ++ fault.message
  | .malformed path line fault => path ++ ":" ++ toString line ++ ": " ++ fault.message
  | .malformedEntry line text => "line " ++ toString line ++ ": malformed entry '" ++ text ++ "'"
  | .unknownTile tile => "Unknown tile " ++ tile
  | .unknownFeature tile feature => "Unknown feature " ++ feature ++ " in tile " ++ tile
  | .badTileBit tile bit => "Bad bit " ++ tile ++ "." ++ toString bit
  | .refused fault => fault.message

end ConfigStream
