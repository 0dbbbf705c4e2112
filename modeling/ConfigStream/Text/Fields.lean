import ConfigStream.Text.Blank

/-!
# Fields of a line

`fields` are the maximal runs of characters that are not blank; `cut?` splits a text at the first
place where a separator stands.
-/

namespace ConfigStream.Text

/-- The parts before and after the first separator, if there is one. -/
def cut? (separator : Char) (text : List Char) : Option (List Char × List Char) :=
  match text.dropWhile (· != separator) with
  | [] => none
  | _ :: after => some (text.takeWhile (· != separator), after)

/-- The maximal runs of characters that are not blank, in order. -/
def fields (text : List Char) : List (List Char) :=
  match _split : text.dropWhile isBlank with
  | [] => []
  | first :: rest =>
    (first :: rest.takeWhile (!isBlank ·)) :: fields (rest.dropWhile (!isBlank ·))
termination_by text.length
decreasing_by
  have outer := (List.dropWhile_suffix isBlank (l := text)).length_le
  have inner := (List.dropWhile_suffix (fun c => !isBlank c) (l := rest)).length_le
  simp only [_split, List.length_cons] at outer
  omega

end ConfigStream.Text
