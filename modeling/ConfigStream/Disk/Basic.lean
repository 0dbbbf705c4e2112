import ConfigStream.Disk.Fault
import ConfigStream.Disk.Path

/-!
# Files on a disk

A `Disk` holds files and directories under the working directory and answers a path as a file system
does: names are followed from directory to directory, `.` and `..` included. What only reads needs
no disk but `Files`, which says what reading each path gives.
-/

namespace ConfigStream

/-- What reading a path gives. -/
structure Files where
  read : String → Except FileFault (List UInt8)

/-- The text of a file, which has to be UTF-8. -/
def Files.readText (files : Files) (path : String) : Except FileFault String :=
  match files.read path with
  | .error fault => .error fault
  | .ok bytes =>
    match String.fromUTF8? ⟨bytes.toArray⟩ with
    | some text => .ok text
    | none => .error .notUtf8

/-- The names that lead to a file or directory, outermost first. Locations above the working
directory begin with `..`, and those from the root of all directories with `/`. -/
abbrev Location := List String

/-- Files with their contents, and directories. -/
structure Disk where
  files : List (Location × List UInt8) := []
  directories : List Location := []
deriving DecidableEq, Repr

namespace Disk

/-- The longest name, in bytes. -/
def nameLimit : Nat := 255

/-- Paths have fewer bytes than this. -/
def pathLimit : Nat := 4096

/-- Whether there is a directory at a location. The working directory, those above it and the root
always exist. -/
def isDirectory (disk : Disk) (location : Location) : Bool :=
  location.all (· == "..") || location == ["/"] || disk.directories.contains location

/-- The location one level up. -/
def parent (location : Location) : Location :=
  match location.getLast? with
  | none | some ".." => location ++ [".."]
  | some "/" => location
  | some _ => location.dropLast

/-- The location that a name leads to from a directory. -/
def follow (disk : Disk) (here : Location) (name : String) : Except FileFault Location :=
  if disk.isDirectory here then
    if name.isEmpty || name == "." then .ok here
    else if name == ".." then .ok (parent here)
    else if name.utf8ByteSize ≤ nameLimit then .ok (here ++ [name])
    else .error .nameTooLong
  else if (disk.files.lookup here).isSome then .error .notDirectory
  else .error .notFound

/-- Where a path starts. -/
def origin (path : String) : Location := if Path.isAbsolute path then ["/"] else []

/-- The location that names lead to. -/
def locate (disk : Disk) (path : String) (names : List String) : Except FileFault Location :=
  if path.toList.contains '\x00' then .error .zeroInName
  else if path.isEmpty then .error .notFound
  else if path.utf8ByteSize < pathLimit then names.foldlM disk.follow (origin path)
  else .error .nameTooLong

/-- The contents of the file at a path. -/
def read (disk : Disk) (path : String) : Except FileFault (List UInt8) :=
  match disk.locate path (Path.names path) with
  | .error fault => .error fault
  | .ok location =>
    if disk.isDirectory location then .error .isDirectory
    else match disk.files.lookup location with
      | some contents => .ok contents
      | none => .error .notFound

/-- What can be read from a disk. -/
def toFiles (disk : Disk) : Files := ⟨disk.read⟩

/-- The disk with the given contents at a location. -/
def put (disk : Disk) (location : Location) (contents : List UInt8) : Disk :=
  { disk with files := (location, contents) :: disk.files.filter (·.1 != location) }

/-- The names that lead to the directory of a file: all but the last that is not empty, and then
the directory itself. -/
def directoryNames (names : List String) : List String :=
  ((names.reverse.dropWhile (·.isEmpty)).tail).reverse ++ ["."]

/-- Write a file. Its directory has to exist, and it must not be a directory itself. A path with a
slash at its end is that of a directory, whether there is one or not. -/
def write (disk : Disk) (path : String) (contents : List UInt8) : Except FileFault Disk :=
  let names := Path.names path
  if names.getLast? = some "" ∧ path ≠ "" then
    match disk.locate path (directoryNames names) with
    | .error fault => .error fault
    | .ok _ => .error .isDirectory
  else
    match disk.locate path names with
    | .error fault => .error fault
    | .ok location =>
      if disk.isDirectory location then .error .isDirectory
      else .ok (disk.put location contents)

/-- The disk with a file and the directories that lead to it. -/
def place (disk : Disk) (path : String) (contents : List UInt8) : Disk :=
  let location := (Path.names path).foldl
    (fun here name =>
      if name.isEmpty || name == "." then here
      else if name == ".." then parent here
      else here ++ [name])
    (origin path)
  let above := (List.range location.length).map location.take
  { disk.put location contents with directories := disk.directories ++ above }

/-- The disk without the file at a path. -/
def remove (disk : Disk) (path : String) : Disk :=
  match disk.locate path (Path.names path) with
  | .ok location => { disk with files := disk.files.filter (·.1 != location) }
  | .error _ => disk

/-- A disk with the given files and the directories that lead to them. -/
def ofFiles (files : List (String × List UInt8)) : Disk :=
  files.foldl (fun disk (path, contents) => disk.place path contents) {}

/-- Whether a location is in the working directory or in one below it. -/
def isBelow (location : Location) : Bool :=
  location.head? != some ".." && location.head? != some "/"

/-- The files under the working directory that are new or have other contents than before, by
path. -/
def changes (before after : Disk) : List (String × List UInt8) :=
  after.files.filterMap fun (location, contents) =>
    if before.files.lookup location = some contents || !isBelow location then none
    else some ("/".intercalate location, contents)

end Disk

end ConfigStream
