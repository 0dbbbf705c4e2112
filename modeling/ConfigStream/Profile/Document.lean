import ConfigStream.Text.Numeral

/-!
# Settings documents

A settings document is TOML of the simplest kind: one `key = value` a line, where a value is a
string or an integer, with comments and empty lines between. All four kinds of TOML strings and all
forms of TOML integers are read. Tables, arrays, dotted keys and other kinds of values are refused,
since no setting has them.
-/

namespace ConfigStream.Document

/-- The value of a setting. -/
inductive Value where
  | text (text : String)
  | number (number : Int)
deriving DecidableEq, Repr

/-- A blank inside a line. -/
def isSpace (c : Char) : Bool := c == ' ' || c == '\t'

/-- A character that may stand for itself in a comment or a string: not a control character, the
tab excepted. -/
def isPlain (c : Char) : Bool := c == '\t' || (' ' ≤ c && c.toNat != 0x7F)

/-- A character of a key without quotes. -/
def isKeyChar (c : Char) : Bool := c.isAlphanum || c == '_' || c == '-'

/-- The text without the blanks at its start. -/
def skipSpaces (text : List Char) : List Char := text.dropWhile isSpace

/-- The text after the line end it begins with. -/
def newline? : List Char → Option (List Char)
  | '\n' :: rest => some rest
  | '\r' :: '\n' :: rest => some rest
  | _ => none

/-- The text after the rest of a line that says nothing more: blanks, a comment, the line end. -/
def lineEnd? (text : List Char) : Option (List Char) :=
  let text := match skipSpaces text with
    | '#' :: comment => comment.dropWhile isPlain
    | text => text
  if text.isEmpty then some [] else newline? text

/-- The text without the blanks and line ends at its start. -/
def skipGap : List Char → List Char
  | '\r' :: '\n' :: rest => skipGap rest
  | '\n' :: rest => skipGap rest
  | ' ' :: rest => skipGap rest
  | '\t' :: rest => skipGap rest
  | text => text

/-- The text after a line end that a backslash joins over: the blanks before it, and all blanks and
line ends after it. -/
def joinLines? (text : List Char) : Option (List Char) :=
  (newline? (skipSpaces text)).map skipGap

/-- The character with a code of `width` hexadecimal digits, and the text after it. -/
def codePoint? (width : Nat) (text : List Char) : Option (Char × List Char) := do
  let digits := text.take width
  if digits.length ≠ width then failure
  let code ← Text.natural? 16 0x110000 digits
  if code < 0xD800 ∨ 0xE000 ≤ code then pure (Char.ofNat code, text.drop width) else failure

/-- The character that an escape stands for, and the text after it; the backslash is gone. -/
def escape? : List Char → Option (Char × List Char)
  | 'b' :: rest => some ('\x08', rest)
  | 't' :: rest => some ('\t', rest)
  | 'n' :: rest => some ('\n', rest)
  | 'f' :: rest => some ('\x0c', rest)
  | 'r' :: rest => some ('\r', rest)
  | '"' :: rest => some ('"', rest)
  | '\\' :: rest => some ('\\', rest)
  | 'u' :: rest => codePoint? 4 rest
  | 'U' :: rest => codePoint? 8 rest
  | _ => none

/-- How a string is delimited: by which quote, and whether by three of them. -/
structure Quotes where
  quote : Char
  multiline : Bool
deriving DecidableEq, Repr

/-- Whether backslashes escape. -/
def Quotes.escapes (quotes : Quotes) : Bool := quotes.quote == '"'

/-- The body of a string up to its closing quotes, after the characters in `done`, which are held
backwards, and the text after it. A string over several lines may hold one or two quotes, also right
before the closing ones. The fuel is the length of the text and never runs out. -/
def stringBody? (quotes : Quotes) : Nat → List Char → List Char → Option (String × List Char)
  | 0, _, _ => none
  | _, _, [] => none
  | fuel + 1, done, c :: rest =>
    if c = quotes.quote then
      if quotes.multiline then
        let count := (((c :: rest).take 5).takeWhile (· == quotes.quote)).length
        if count < 3 then stringBody? quotes fuel (c :: done) rest
        else
          let inner := List.replicate (count - 3) c
          some (String.ofList (done.reverse ++ inner), (c :: rest).drop count)
      else some (String.ofList done.reverse, rest)
    else if c = '\\' ∧ quotes.escapes then
      match if quotes.multiline then joinLines? rest else none with
      | some after => stringBody? quotes fuel done after
      | none =>
        match escape? rest with
        | some (meant, after) => stringBody? quotes fuel (meant :: done) after
        | none => none
    else if isPlain c then stringBody? quotes fuel (c :: done) rest
    else if quotes.multiline then
      match newline? (c :: rest) with
      | some after => stringBody? quotes fuel ('\n' :: done) after
      | none => none
    else none

/-- A string in single quotes of either kind. -/
def lineString? (quote : Char) (text : List Char) : Option (String × List Char) :=
  stringBody? ⟨quote, false⟩ (text.length + 1) [] text

/-- A string over several lines, whose first line may be empty and then does not count. -/
def longString? (quote : Char) (text : List Char) : Option (String × List Char) :=
  let body := (newline? text).getD text
  stringBody? ⟨quote, true⟩ (body.length + 1) [] body

/-- A string of any kind, after its first quote. -/
def string? (quote : Char) (text : List Char) : Option (String × List Char) :=
  if text.take 2 = [quote, quote] then longString? quote (text.drop 2) else lineString? quote text

/-- The digits of a number in which single underscores may stand between two digits. -/
def ungroup? : List Char → Option (List Char)
  | [] => none
  | [digit] => if digit = '_' then none else some [digit]
  | digit :: next :: rest =>
    if digit = '_' then none
    else if next = '_' then (ungroup? rest).map (digit :: ·)
    else (ungroup? (next :: rest)).map (digit :: ·)

/-- A number below `limit`, digits perhaps grouped. -/
def grouped? (radix limit : Nat) (text : List Char) : Option Nat := do
  Text.natural? radix limit (← ungroup? text)

/-- A decimal number below `limit`, without needless zeros in front. -/
def plainDecimal? (limit : Nat) (text : List Char) : Option Nat :=
  match text with
  | '0' :: _ :: _ => none
  | _ => grouped? 10 limit text

/-- Integers are at least `-integerBound` and below it. -/
def integerBound : Nat := 0x8000000000000000

/-- An integer: hexadecimal, octal, binary, or decimal with an optional sign. -/
def integer? : List Char → Option Int
  | '0' :: 'x' :: digits => (grouped? 16 integerBound digits).map Int.ofNat
  | '0' :: 'o' :: digits => (grouped? 8 integerBound digits).map Int.ofNat
  | '0' :: 'b' :: digits => (grouped? 2 integerBound digits).map Int.ofNat
  | '-' :: digits => (plainDecimal? (integerBound + 1) digits).map fun value => -(value : Int)
  | '+' :: digits => (plainDecimal? integerBound digits).map Int.ofNat
  | digits => (plainDecimal? integerBound digits).map Int.ofNat

/-- A value, and the text after it. -/
def value? : List Char → Option (Value × List Char)
  | '"' :: rest => do
    let (text, rest) ← string? '"' rest
    pure (.text text, rest)
  | '\'' :: rest => do
    let (text, rest) ← string? '\'' rest
    pure (.text text, rest)
  | text => do
    let ends (c : Char) : Bool := isSpace c || c == '#' || c == '\n' || c == '\r'
    let number ← integer? (text.takeWhile (!ends ·))
    pure (.number number, text.dropWhile (!ends ·))

/-- A key, and the text after it. -/
def key? : List Char → Option (String × List Char)
  | '"' :: rest => lineString? '"' rest
  | '\'' :: rest => lineString? '\'' rest
  | text =>
    let key := text.takeWhile isKeyChar
    if key.isEmpty then none else some (String.ofList key, text.dropWhile isKeyChar)

/-- A setting with its line end, and the text after it. -/
def setting? (text : List Char) : Option ((String × Value) × List Char) := do
  let (key, rest) ← key? text
  let rest ← match skipSpaces rest with
    | '=' :: rest => some rest
    | _ => none
  let (value, rest) ← value? (skipSpaces rest)
  pure ((key, value), ← lineEnd? rest)

/-- The settings of a document, after those in `done`. The fuel is the length of the text and never
runs out. -/
def settingsFrom? (done : Array (String × Value)) :
    Nat → List Char → Option (List (String × Value))
  | 0, _ => none
  | fuel + 1, text =>
    if text.isEmpty then some done.toList
    else
      match lineEnd? text with
      | some rest => settingsFrom? done fuel rest
      | none =>
        match setting? (skipSpaces text) with
        | some (setting, rest) => settingsFrom? (done.push setting) fuel rest
        | none => none

/-- The settings of a document in order, or nothing if it is malformed. A byte order mark at its
start does not count. -/
def parse? (text : String) : Option (List (String × Value)) :=
  let body := match text.toList with
    | '\uFEFF' :: rest => rest
    | body => body
  settingsFrom? #[] (body.length + 1) body

end ConfigStream.Document
