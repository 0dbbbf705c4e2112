import ConfigStream.Text.Blank

/-!
# Content lines

The input files share one layout: a `#` starts a comment, blanks around a line do not count, and
lines with nothing left are skipped. Lines end at a line feed, and one carriage return before it
belongs to the line end; the last line needs no end.
-/

namespace ConfigStream.Text

/-- A finished line, held backwards: one carriage return at its end belongs to the line end. -/
def finishLine : List Char → List Char
  | '\r' :: line => line.reverse
  | line => line.reverse

/-- The lines of a text whose current line was begun with `current`, held backwards, after the
lines in `done`. -/
def linesFrom (current : List Char) (done : Array (List Char)) : List Char → List (List Char)
  | [] => (if current.isEmpty then done else done.push current.reverse).toList
  | '\n' :: rest => linesFrom [] (done.push (finishLine current)) rest
  | c :: rest => linesFrom (c :: current) done rest

/-- The lines of a text. -/
def lines (text : List Char) : List (List Char) :=
  linesFrom [] #[] text

/-- What a line says: the text before a comment, without blanks around it. -/
def content (line : List Char) : List Char :=
  trim (line.takeWhile (· != '#'))

/-- A line that says something, with its number counted from 1. -/
structure Entry where
  number : Nat
  text : String
deriving DecidableEq, Repr

/-- The lines of a text that say something. -/
def entries (text : String) : List Entry :=
  (lines text.toList).zipIdx.filterMap fun (line, index) =>
    let said := content line
    if said.isEmpty then none else some ⟨index + 1, String.ofList said⟩

end ConfigStream.Text
