/-!
# Numerals

Written numbers as the input files and the reports have them. Reading takes the digits of a radix,
in either case, and refuses anything else; a number may be led by one plus sign. Printing gives
the shortest digits, filled up on the left with zeros to a least width.
-/

namespace ConfigStream.Text

/-- The value of a digit in the given radix, letters in either case. -/
def digitValue? (radix : Nat) (digit : Char) : Option Nat :=
  let value? :=
    if '0' ≤ digit ∧ digit ≤ '9' then some (digit.toNat - '0'.toNat)
    else if 'a' ≤ digit ∧ digit ≤ 'z' then some (digit.toNat - 'a'.toNat + 10)
    else if 'A' ≤ digit ∧ digit ≤ 'Z' then some (digit.toNat - 'A'.toNat + 10)
    else none
  value?.filter (· < radix)

/-- The number that `total` becomes with digits after it, if it stays below `limit`. More digits
never make a number smaller, so reading ends where the limit is reached. -/
def extendNatural? (radix limit total : Nat) : List Char → Option Nat
  | [] => some total
  | digit :: digits => do
    let value ← digitValue? radix digit
    let total := total * radix + value
    if total < limit then extendNatural? radix limit total digits else none

/-- The number below `limit` that a digit sequence spells, most significant digit first. The empty
sequence is no number. -/
def natural? (radix limit : Nat) (digits : List Char) : Option Nat :=
  if digits.isEmpty then none else extendNatural? radix limit 0 digits

/-- A number below `limit`, led by at most one plus sign. -/
def unsigned? (radix limit : Nat) (text : List Char) : Option Nat :=
  natural? radix limit (match text with
    | '+' :: digits => digits
    | _ => text)

/-- A decimal number of at least `-bound` and less than `bound`, led by at most one sign. -/
def signed? (bound : Nat) (text : List Char) : Option Int :=
  match text with
  | '-' :: digits => (natural? 10 (bound + 1) digits).map fun value => -(value : Int)
  | _ => (unsigned? 10 bound text).map Int.ofNat

/-- Hexadecimal digits without the mark `0x` that may stand in front of them. -/
def unmarked : List Char → List Char
  | '0' :: 'x' :: digits => digits
  | '0' :: 'X' :: digits => digits
  | digits => digits

/-- Values of unsigned 16-bit fields are below this. -/
def limit16 : Nat := 0x10000

/-- Values of unsigned 32-bit fields are below this. -/
def limit32 : Nat := 0x100000000

/-- Counts and bit positions in the input files are below this. -/
def limit64 : Nat := 0x10000000000000000

/-- The 32-bit number whose hexadecimal digits, perhaps marked by `0x`, begin a text. -/
def leadingHex? (text : List Char) : Option UInt32 :=
  let digits := (unmarked text).takeWhile fun c => (digitValue? 16 c).isSome
  (natural? 16 limit32 digits).map UInt32.ofNat

/-- The digits of a number in the given radix, with zeros in front up to the given width. -/
def digits (radix width value : Nat) : List Char :=
  let shortest := Nat.toDigits radix value
  List.replicate (width - shortest.length) '0' ++ shortest

/-- A number in lower-case hexadecimal digits, at least `width` of them. -/
def hex (width value : Nat) : String :=
  String.ofList (digits 16 width value)

/-- A number in decimal digits, at least `width` of them. -/
def decimal (width value : Nat) : String :=
  String.ofList (digits 10 width value)

end ConfigStream.Text
