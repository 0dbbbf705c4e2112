import ConfigStream.Database.Fault
import ConfigStream.Text.Fields
import ConfigStream.Text.Lines
import Std.Data.ExtTreeMap

/-!
# Bit tables

The bit table of a tile type lists the tile bits of each feature: a line is a feature name and
decimal bits, and a feature on several lines has the bits of all of them in order.
-/

namespace ConfigStream

/-- The tile bits of features. -/
structure BitTable where
  features : Std.ExtTreeMap String (List Nat)

namespace BitTable

/-- The table without a feature. -/
def empty : BitTable := ⟨∅⟩

/-- The bits of a feature. -/
def bits? (table : BitTable) (feature : String) : Option (List Nat) := table.features[feature]?

/-- The number of features. -/
def size (table : BitTable) : Nat := table.features.size

/-- Whether there is no feature. -/
def isEmpty (table : BitTable) : Bool := table.features.isEmpty

/-- Read a bit of a feature. -/
def bit (feature : String) (text : List Char) : Except LineFault Nat :=
  match Text.unsigned? 10 Text.limit64 text with
  | some bit => .ok bit
  | none => .error (.featureBit (String.ofList text) feature)

/-- What a line says: a feature and bits of it, or nothing if it is blank. -/
def line (text : String) : Except LineFault (Option (String × List Nat)) :=
  match Text.fields text.toList with
  | [] => .ok none
  | name :: fields =>
    let feature := String.ofList name
    (fields.mapM (bit feature)).map fun bits => some (feature, bits)

/-- The table with bits of a feature in front of those it has. -/
def prepend (said : String × List Nat) (table : BitTable) : BitTable :=
  ⟨table.features.insert said.1 (said.2 ++ (table.bits? said.1).getD [])⟩

/-- The table that lines describe. -/
def ofLines (lines : List (Option (String × List Nat))) : BitTable :=
  (lines.filterMap id).foldr prepend empty

/-- Read a line of a table. -/
def readLine (path : String) (entry : Text.Entry) :
    Except DatabaseFault (Option (String × List Nat)) :=
  (line entry.text).mapError (.malformed path entry.number)

/-- Read a table. -/
def parse (path text : String) : Except DatabaseFault BitTable :=
  ((Text.entries text).mapM (readLine path)).map ofLines

end BitTable

end ConfigStream
