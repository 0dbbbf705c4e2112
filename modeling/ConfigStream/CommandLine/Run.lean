import ConfigStream.Bitstream.Saving
import ConfigStream.CommandLine.Arguments
import ConfigStream.CommandLine.Failure
import ConfigStream.Database.Assignment
import ConfigStream.Decoder
import ConfigStream.Profile.Reading

/-!
# Doing what a command line asks

`assemble` fills the frames of a device from a harness and feature assignments and saves the
bitstream; `dump` lists what a bitstream says. Both read their files, work out a product, and only
then print or save it.
-/

namespace ConfigStream

/-- Read a profile from a file. -/
def Profile.read (files : Files) (path : String) : Except ProfileFault Profile :=
  match files.readText path with
  | .error fault => .error (.unreadable fault)
  | .ok text =>
    match Profile.parse? text with
    | some profile => .ok profile
    | none => .error .malformed

namespace CommandLine

/-- A result, or the failure that its fault makes. -/
def orFail (failure : ε → Failure) : Except ε α → Except Failure α
  | .ok value => .ok value
  | .error fault => .error (failure fault)

namespace Assembly

/-- The frames of the device, filled: empty frames for the device and the region, the bits of the
harness outside the region, and the bits of the features. -/
def fill (files : Files) (assembly : Assembly) (database : Database) :
    Except Failure FrameMemory := do
  let region ← orFail .readRegion (AddressSet.read files assembly.region)
  let memory := database.blankMemory.reset region.toList
  let harness ← orFail (.readHarness assembly.harness) (files.readText assembly.harness)
  let (memory, ingested) := memory.assignHarness harness region
  let _ ← orFail (.harness assembly.harness) ingested
  let features ← orFail (.readFeatures assembly.features) (files.readText assembly.features)
  let (design, applied) := Design.assignFeatures files ⟨database, memory⟩ features
  let _ ← orFail (.features assembly.features) applied
  pure design.memory

/-- The profile to use. -/
def loadProfile (files : Files) (assembly : Assembly) : Except Failure Profile :=
  match assembly.profile with
  | none => .ok {}
  | some path => orFail (.loadProfile path) (Profile.read files path)

/-- The bitstream of an assembly. -/
def perform (files : Files) (assembly : Assembly) : Except Failure Bitstream := do
  let profile ← assembly.loadProfile files
  let database ← orFail (.openDatabase assembly.database) (Database.load files assembly.database)
  let memory ← assembly.fill files database
  let bitstream ← orFail .encode (Bitstream.ofMemory profile memory database.frameOrder)
  orFail .encode bitstream.checkSync
  pure bitstream

end Assembly

namespace Dump

/-- The order by which frame data is followed. -/
def frameOrder (files : Files) (dump : Dump) : Except Failure FrameOrder :=
  match dump.frames with
  | none => .ok .empty
  | some path => orFail (.loadFrames path) (FrameOrder.read files path)

/-- The listing of a bitstream. -/
def perform (files : Files) (dump : Dump) : Except Failure String := do
  let data ← orFail (.readBitstream dump.bitstream) (files.read dump.bitstream)
  if dump.hex then
    pure ({ data, part := dump.bitstream } : Bitstream).hexDump
  else
    let order ← dump.frameOrder files
    let report ← orFail (.decode dump.bitstream) (ConfigStream.decode order data)
    pure (report.listing dump.comments)

end Dump

/-- What a command works out: a text to print or files to write for an output path. -/
inductive Product where
  | listing (text : String)
  | saved (output : String) (bitstream : Bitstream) (withReport : Bool)
deriving DecidableEq, Repr

/-- Work out what a command line asks for. -/
def Invocation.perform (files : Files) : Invocation → Except Failure Product
  | .assemble assembly =>
    (assembly.perform files).map fun bitstream =>
      .saved assembly.output bitstream assembly.report
  | .dump wanted => (wanted.perform files).map .listing

/-- The files that a command may read, apart from bit tables. -/
def Invocation.inputs : Invocation → List String
  | .assemble assembly =>
    assembly.profile.toList ++
      [Database.framesPath assembly.database, Database.tilesPath assembly.database,
        assembly.region, assembly.harness, assembly.features]
  | .dump wanted => wanted.bitstream :: wanted.frames.toList

/-- The bit tables that a command may read, going by the tiles of its database. -/
def Invocation.tables (files : Files) : Invocation → List String
  | .assemble assembly =>
    match Database.load files assembly.database with
    | .ok database =>
      (database.tiles.toList.map (·.type)).eraseDups.map (Database.tablePath assembly.database)
    | .error _ => []
  | .dump _ => []

/-- How a run ends: its exit code, what it prints, why it failed, and the disk it leaves. -/
structure Outcome where
  exit : Nat
  output : String
  failure : Option Failure
  disk : Disk
deriving DecidableEq, Repr

/-- What is printed about how a command line should look. -/
def usageText : String :=
  "Usage: framewright [-v]... <COMMAND>\n\nCommands:\n" ++
    "  assemble [-p <FILE>] [--report] <DB> <ROI_FRAMES> <HARNESS> <FEATURES> <OUTPUT>\n" ++
    "  dump [-f <FILE>] [-c] [--hex] <BITSTREAM>\n"

/-- What is printed about which program this is. -/
def versionText : String := "framewright 0.1.0\n"

/-- Deliver a product: print it, or write its files. -/
def Product.deliver (disk : Disk) : Product → Outcome
  | .listing text => ⟨0, text, none, disk⟩
  | .saved output bitstream withReport =>
    match bitstream.save disk output withReport with
    | (disk, .ok ()) => ⟨0, "", none, disk⟩
    | (disk, .error fault) => ⟨1, "", some (.write output fault), disk⟩

/-- Run a command line on a disk. -/
def run (disk : Disk) (commandLine : List String) : Outcome :=
  match Invocation.parse commandLine with
  | .error .usage => ⟨2, "", none, disk⟩
  | .error .help => ⟨0, usageText, none, disk⟩
  | .error .version => ⟨0, versionText, none, disk⟩
  | .ok invocation =>
    match invocation.perform disk.toFiles with
    | .ok product => product.deliver disk
    | .error failure => ⟨1, "", some failure, disk⟩

end CommandLine

end ConfigStream
