import ConfigStream.Fault
import ConfigStream.Frame.Layout
import ConfigStream.Text.Fields

/-!
# Bit addresses

A configuration bit is found by its frame address, its word and its bit in the word. The written
form is `F0x00000010W002B05`; reading also takes it without `0x`, in other letter case and with
any number of digits, and allows blanks around it.
-/

namespace ConfigStream

/-- The place of one configuration bit. -/
structure BitAddress where
  frame : UInt32
  word : Nat
  bit : Nat
deriving DecidableEq, Repr

namespace BitAddress

/-- The index of the bit in its frame. -/
def index (address : BitAddress) : Nat :=
  address.word * Word.width + address.bit

/-- The written form. -/
def text (address : BitAddress) : String :=
  "F0x" ++ Text.hex 8 address.frame.toNat ++ "W" ++ Text.decimal 3 address.word ++ "B" ++
    Text.decimal 2 address.bit

/-- Read the written form, without blanks around it. -/
def ofChars? : List Char → Option BitAddress
  | 'F' :: rest => do
    let (frame, rest) ← Text.cut? 'W' rest
    let (word, bit) ← Text.cut? 'B' rest
    let frame ← Text.unsigned? 16 Text.limit32 (Text.unmarked frame)
    let word ← Text.unsigned? 10 Frame.wordCount word
    let bit ← Text.unsigned? 10 Word.width bit
    pure ⟨UInt32.ofNat frame, word, bit⟩
  | _ => none

/-- Read the written form; what is refused is quoted with the blanks around it. -/
def parse (text : String) : Except Fault BitAddress :=
  match ofChars? (Text.trim text.toList) with
  | some address => .ok address
  | none => .error (.notBitAddress text)

end BitAddress

end ConfigStream
