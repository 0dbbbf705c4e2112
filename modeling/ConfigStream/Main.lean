import ConfigStream.CommandLine.Run

/-!
# The command line program

The outer layer: it reads the files that a command names, lets the command work out its product,
and prints or writes that.
-/

namespace ConfigStream.CommandLine

/-- The codes, of either sign, by which the system says that a directory is no file. -/
def directoryCodes : List UInt32 := [21, 0 - 21]

/-- The codes, of either sign, by which the system says that a name is too long. -/
def lengthCodes : List UInt32 := [36, 0 - 36]

/-- The file fault of a failed input or output operation. -/
def fileFault : IO.Error → FileFault
  | .noFileOrDirectory .. => .notFound
  | .inappropriateType _ code _ =>
    if directoryCodes.contains code then .isDirectory else .notDirectory
  | .invalidArgument _ code details =>
    if lengthCodes.contains code then .nameTooLong else .other details
  | error => .other (toString error)

/-- Read a file. -/
def readFile (path : String) : IO (Except FileFault (List UInt8)) := do
  if path.toList.contains '\x00' then return .error .zeroInName
  try
    let contents ← IO.FS.readBinFile path
    return .ok contents.data.toList
  catch error => return .error (fileFault error)

/-- What reading each of the listed paths gives, after those already known. -/
def readAll (known : List (String × Except FileFault (List UInt8))) (paths : List String) :
    IO (List (String × Except FileFault (List UInt8))) :=
  paths.foldlM (fun known path => return (path, ← readFile path) :: known) known

/-- Files of which those listed have been read. -/
def filesOf (known : List (String × Except FileFault (List UInt8))) : Files :=
  ⟨fun path => (known.lookup path).getD (.error .notFound)⟩

/-- Write files in order, up to the first that cannot be written. -/
def writeAll : List (String × List UInt8) → IO (Option FileFault)
  | [] => return none
  | (path, contents) :: rest => do
    try
      IO.FS.writeBinFile path ⟨contents.toArray⟩
      writeAll rest
    catch error => return some (fileFault error)

/-- Print the report of a failure. -/
def fail (failure : Failure) : IO UInt32 := do
  IO.eprintln failure.report
  return 1

/-- Deliver a product to the terminal or the disk. -/
def deliver : Product → IO UInt32
  | .listing text => do
    IO.print text
    return 0
  | .saved output bitstream withReport => do
    match ← writeAll (bitstream.saved output withReport) with
    | none => return 0
    | some fault => fail (.write output (.file fault))

/-- Do what an invocation asks. -/
def execute (invocation : Invocation) : IO UInt32 := do
  let known ← readAll [] invocation.inputs
  let known ← readAll known (invocation.tables (filesOf known))
  match invocation.perform (filesOf known) with
  | .ok product => deliver product
  | .error failure => fail failure

end ConfigStream.CommandLine

open ConfigStream.CommandLine in
/-- The program. -/
def main (arguments : List String) : IO UInt32 := do
  match Invocation.parse arguments with
  | .ok invocation => execute invocation
  | .error .help => IO.print usageText; return 0
  | .error .version => IO.print versionText; return 0
  | .error .usage => IO.eprint usageText; return 2
