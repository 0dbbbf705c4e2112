import ConfigStream.Word

/-!
# The layout of a frame

A frame is 93 words. Bit `n` of a frame is bit `n % 32` of word `n / 32`. Word 45 and the low half
of word 46 are reserved for the frame's own syndrome; every other bit is data.
-/

namespace ConfigStream.Frame

/-- The words in a frame. -/
def wordCount : Nat := 93

/-- The bits in a frame. -/
def bitCount : Nat := wordCount * Word.width

/-- The first word of the reserved region. -/
def reservedWord : Nat := 45

/-- The bits in the reserved region. -/
def reservedWidth : Nat := 48

/-- Whether a bit of a word lies in the reserved region. -/
def isReserved (word bit : Nat) : Bool :=
  word == reservedWord || (word == reservedWord + 1 && bit < 16)

/-- The set data bits of a word at the given place in a frame, ascending. -/
def dataBitsOf (word : Nat) (value : UInt32) : List Nat :=
  (Word.setBits value).filter fun bit => !isReserved word bit

/-- What a word at the given place contributes to the reserved 48 bits: all of word 45, and above
it the low half of word 46. -/
def storedPart (word : Nat) (value : UInt32) : UInt64 :=
  if word = reservedWord then value.toUInt64
  else if word = reservedWord + 1 then (value &&& 0xFFFF).toUInt64 <<< 32
  else 0

/-- A word at the given place with its part of the reserved 48 bits taken from `field`. -/
def putStoredPart (field : UInt64) (word : Nat) (value : UInt32) : UInt32 :=
  if word = reservedWord then field.toUInt32
  else if word = reservedWord + 1 then
    let high : UInt32 := (field >>> 32).toUInt32
    (value &&& 0xFFFF0000) ||| (high &&& 0xFFFF)
  else value

end ConfigStream.Frame
