import ConfigStream.Frame.Layout

/-!
# Frame syndromes

A data bit contributes an 11-bit offset made of its word and its nibble, completed by a bit that
makes the number of ones odd and spread to one bit per nibble; the bit's place in its own nibble
selects the lane. The syndrome of a frame is the exclusive or over its set data bits. For word 3,
bit 9 the offset is `0b10100110010`, spread `0x10100110010`, and in lane 1 `0x20200220020`.
-/

namespace ConfigStream.Syndrome

/-- Added to the word so that the last word of a frame has offset 255. -/
def offsetBase : Nat := 255 - (Frame.wordCount - 1)

/-- The bits of an offset. -/
def offsetBits : Nat := 11

/-- The offset of a bit, with the bit above it toggled once and once more for each one below.
Only the low 32 bits of the offset are kept. -/
def oddOffset (word bit : Nat) : UInt32 :=
  let offset := UInt32.ofNat ((word + offsetBase) <<< 3 ||| bit / 4)
  let ones := (List.range offsetBits).countP (Word.testBit offset)
  if ones % 2 = 0 then offset ^^^ (1 <<< UInt32.ofNat offsetBits) else offset

/-- The low twelve bits of an offset, one per nibble. -/
def spread (offset : UInt32) : UInt64 :=
  (List.range (offsetBits + 1)).foldl
    (fun lanes bit =>
      if Word.testBit offset bit then lanes ||| 1 <<< UInt64.ofNat (4 * bit) else lanes)
    0

/-- What one set bit contributes. -/
def ofBit (word bit : Nat) : UInt64 :=
  spread (oddOffset word bit) <<< UInt64.ofNat (bit % 4)

/-- What the data bits of one word contribute. -/
def ofWord (word : Nat) (value : UInt32) : UInt64 :=
  (Frame.dataBitsOf word value).foldl (fun syndrome bit => syndrome ^^^ ofBit word bit) 0

/-- The syndrome of a frame's words; words past the end of a frame do not count. -/
def ofWords (words : List UInt32) : UInt64 :=
  (words.take Frame.wordCount).zipIdx.foldl
    (fun syndrome entry => syndrome ^^^ ofWord entry.2 entry.1) 0

end ConfigStream.Syndrome
