/-!
# Paths

A path is a text of names between slashes. One that begins with a slash starts at the root of all
directories, any other at the working directory.
-/

namespace ConfigStream.Path

/-- The names between the slashes of a path; two slashes in a row have an empty name between. -/
def names (path : String) : List String :=
  let pieces := path.toList.foldr
    (fun c pieces =>
      if c = '/' then [] :: pieces
      else match pieces with
        | piece :: rest => (c :: piece) :: rest
        | [] => [[c]])
    [[]]
  pieces.map String.ofList

/-- Whether a path starts at the root of all directories. -/
def isAbsolute (path : String) : Bool := path.toList.head? == some '/'

/-- The path of a file in a directory. -/
def join (directory file : String) : String :=
  if isAbsolute file || directory.isEmpty then file
  else if directory.toList.getLast? == some '/' then directory ++ file
  else directory ++ "/" ++ file

/-- A file name without its extension: the last dot and what follows it, unless the name begins
with that dot. -/
def stem (name : List Char) : List Char :=
  match name.reverse.dropWhile (· != '.') with
  | [] | [_] => name
  | _ :: before => before.reverse

/-- The path with the extension of its last name replaced, or added if there was none. A path that
ends with no name of a file stays as it is. Without its extension, a name like `..a` is the `..` of
the directory above, and no other extension is added to that. -/
def withExtension (path extension : String) : String :=
  let name := (path.toList.reverse.takeWhile (· != '/')).reverse
  let directory := path.toList.take (path.length - name.length)
  if name = [] ∨ name = ['.'] ∨ name = ['.', '.'] then path
  else if stem name = ['.'] then String.ofList (directory ++ ['.', '.'])
  else String.ofList (directory ++ stem name) ++ "." ++ extension

end ConfigStream.Path
