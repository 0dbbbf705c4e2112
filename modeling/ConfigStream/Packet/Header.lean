import ConfigStream.Packet.Register

/-!
# Packet headers

A packet starts with a header word. The top three bits are its type, the two below the opcode. A
type 1 header addresses a register (bits 13 to 26) and announces up to 2047 payload words (bits 0
to 10); a type 2 header announces up to 2^26 - 1 words for the register addressed before. Any other
type ends the packet stream. Fields that are too wide are cut to their width when encoded.
-/

namespace ConfigStream

/-- The word that starts a packet stream. -/
def syncWord : UInt32 := 0xAA995566

/-- The all-ones word, which is no header. -/
def dummyWord : UInt32 := 0xFFFFFFFF

/-- What a packet does with its register. -/
inductive Opcode where
  | nop
  | read
  | write
  | reserved
deriving DecidableEq, Repr

namespace Opcode

/-- The opcode in the two lowest bits. -/
def ofBits (bits : UInt32) : Opcode :=
  let code := bits &&& 0x3
  if code = 0 then .nop else if code = 1 then .read else if code = 2 then .write else .reserved

/-- The two bits of an opcode. -/
def bits : Opcode → UInt32
  | .nop => 0
  | .read => 1
  | .write => 2
  | .reserved => 3

@[simp]
theorem ofBits_bits (opcode : Opcode) : ofBits opcode.bits = opcode := by
  cases opcode <;> rfl

end Opcode

/-- A packet header. -/
inductive Header where
  | type1 (opcode : Opcode) (register : Register) (words : Nat)
  | type2 (opcode : Opcode) (words : Nat)
  | unknown (packetType : UInt8) (raw : UInt32)
deriving DecidableEq, Repr

namespace Header

/-- The largest payload a type 1 packet can announce. -/
def type1Limit : Nat := 0x7FF

/-- The largest payload a type 2 packet can announce. -/
def type2Limit : Nat := 0x3FFFFFF

/-- The bits of a register address in a header. -/
def registerMask : UInt32 := 0x3FFF

/-- A packet that does nothing. -/
def nop : Header := .type1 .nop .crc 0

/-- A register write of the given number of words. -/
def write (register : Register) (words : Nat) : Header := .type1 .write register words

/-- A bulk data packet of the given number of words. -/
def long (words : Nat) : Header := .type2 .read words

/-- The two leading fields of a header word. -/
def lead (packetType : UInt32) (opcode : Opcode) : UInt32 :=
  packetType <<< 29 ||| opcode.bits <<< 27

/-- The header word. -/
def encode : Header → UInt32
  | .type1 opcode register words =>
    lead 1 opcode ||| (register.raw.toUInt32 &&& registerMask) <<< 13 |||
      (UInt32.ofNat words &&& UInt32.ofNat type1Limit)
  | .type2 opcode words =>
    lead 2 opcode ||| (UInt32.ofNat words &&& UInt32.ofNat type2Limit)
  | .unknown _ raw => raw

/-- The header a word stands for. -/
def decode (raw : UInt32) : Header :=
  let packetType := raw >>> 29
  let opcode := Opcode.ofBits (raw >>> 27)
  if packetType = 1 then
    .type1 opcode ⟨((raw >>> 13) &&& registerMask).toUInt16⟩
      (raw &&& UInt32.ofNat type1Limit).toNat
  else if packetType = 2 then
    .type2 opcode (raw &&& UInt32.ofNat type2Limit).toNat
  else .unknown packetType.toUInt8 raw

end Header

end ConfigStream
