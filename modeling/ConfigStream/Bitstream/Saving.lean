import ConfigStream.Bitstream.Basic
import ConfigStream.Disk.Basic
import ConfigStream.Steps

/-!
# Saving a bitstream

A bitstream is saved as its bytes, and if asked for its summary is saved after it, under the same
path with another extension.
-/

namespace ConfigStream

/-- Write files in order, up to the first that cannot be written. -/
def Disk.writeAll (disk : Disk) (files : List (String × List UInt8)) : Disk × Option FileFault :=
  runSteps
    (fun disk (path, contents) =>
      match disk.write path contents with
      | .ok disk => (disk, none)
      | .error fault => (disk, some fault))
    disk files

namespace Bitstream

/-- The path of the summary of a bitstream. -/
def reportPath (path : String) : String := Path.withExtension path "rpt"

/-- The files of a saved bitstream, in the order in which they are written. -/
def saved (bitstream : Bitstream) (path : String) (withReport : Bool) :
    List (String × List UInt8) :=
  (path, bitstream.data) ::
    if withReport then [(reportPath path, bitstream.report.toUTF8.data.toList)] else []

/-- Save a bitstream. What was written before a failure stays. -/
def save (bitstream : Bitstream) (disk : Disk) (path : String) (withReport : Bool) :
    Disk × Except Fault Unit :=
  match disk.writeAll (bitstream.saved path withReport) with
  | (disk, none) => (disk, .ok ())
  | (disk, some fault) => (disk, .error (.file fault))

end Bitstream

end ConfigStream
