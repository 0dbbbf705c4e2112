import ConfigStream.Text.Numeral
import ConfigStream.Text.Unprinted

/-!
# Quoted texts

A text in double quotes, in one line whatever its characters are: quotes, backslashes and the usual
control characters are escaped by a backslash, other characters without a glyph by their code.
-/

namespace ConfigStream.Text

/-- How a character is written between double quotes. -/
def quotedChar (c : Char) : String :=
  match c with
  | '"' => "\\\""
  | '\\' => "\\\\"
  | '\t' => "\\t"
  | '\n' => "\\n"
  | '\r' => "\\r"
  | '\x00' => "\\0"
  | c =>
    if isUnprinted c then "\\u\x7b" ++ hex 1 c.toNat ++ "\x7d" else String.singleton c

/-- A text in double quotes. -/
def quoted (text : String) : String :=
  text.toList.foldl (fun out c => out ++ quotedChar c) "\"" ++ "\""

end ConfigStream.Text
