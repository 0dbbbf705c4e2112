/-!
# The transport check sum

Every payload word extends a CRC-32C accumulator by 37 bits: the 32 data bits and then the five low
bits of the register address, least significant bit first. `extend` divides those bits out one at
a time in a 64-bit remainder, and `extendAll` chains it over a sequence of writes.
-/

namespace ConfigStream.Crc

/-- The Castagnoli polynomial without its leading term, highest power in the lowest bit. -/
def polynomial : UInt32 := 0x82F63B78

/-- The address bits that take part in the check sum. -/
def addressBits : Nat := 5

/-- A division in progress: the input bits still to come, lowest first, and the remainder. -/
structure Division where
  input : UInt64
  remainder : UInt64
deriving DecidableEq, Repr

/-- Divide out one bit: the polynomial is subtracted when input and remainder disagree in their
lowest bit. -/
def Division.next (division : Division) : Division :=
  let remainder :=
    if division.input &&& 1 = division.remainder &&& 1 then division.remainder
    else division.remainder ^^^ (polynomial.toUInt64 <<< 1)
  ⟨division.input >>> 1, remainder >>> 1⟩

/-- Divide out the given number of bits. -/
def Division.run : Nat → Division → Division
  | 0, division => division
  | bits + 1, division => division.next.run bits

/-- The accumulator after one more word written to a register address. -/
def extend (address data previous : UInt32) : UInt32 :=
  let start : Division := ⟨address.toUInt64 <<< 32 ||| data.toUInt64, previous.toUInt64⟩
  (start.run (addressBits + 32)).remainder.toUInt32

/-- The accumulator after a sequence of (address, data) writes. -/
def extendAll (previous : UInt32) (writes : List (UInt32 × UInt32)) : UInt32 :=
  writes.foldl (fun crc write => extend write.1 write.2 crc) previous

end ConfigStream.Crc
