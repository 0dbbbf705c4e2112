import ConfigStream.Disk.Fault
import ConfigStream.Text.Numeral

/-!
# What can go wrong with a stream

The causes for which a stream cannot be built, read, checked or stored, and their wording.
-/

namespace ConfigStream

/-- Why a stream or a frame memory operation fails. -/
inductive Fault where
  /-- Fewer than four bytes are left where a payload word is due. -/
  | endInPayload (offset : Nat)
  /-- There is no sync word at or after the offset. -/
  | noSync (offset : Nat)
  /-- There is no frame to encode. -/
  | noFrames
  /-- The address has no frame. -/
  | noFrame (address : UInt32)
  /-- The bit lies outside every frame. -/
  | outsideFrame (address : UInt32) (bit : Nat)
  /-- The text is no bit address. -/
  | notBitAddress (text : String)
  /-- A type 1 packet cannot announce so many words. -/
  | payloadTooLong (words : Nat)
  /-- A header string does not fit its 16-bit length. -/
  | fieldTooLong (tag : UInt8) (bytes : Nat)
  /-- A bitstream has no sync word. -/
  | missingSync
  /-- A bitstream ends with its sync word. -/
  | noPackets
  /-- A bitstream cannot be stored. -/
  | file (fault : FileFault)
deriving DecidableEq, Repr

/-- The wording of a fault. -/
def Fault.message : Fault → String
  | .endInPayload offset => "Unexpected end of bitstream at offset " ++ toString offset
  | .noSync offset => "Sync word not found after offset " ++ toString offset
  | .noFrames => "Frame store is empty"
  | .noFrame address =>
    "Frame 0x" ++ Text.hex 8 address.toNat ++ " is not in the frame store"
  | .outsideFrame address bit =>
    "Bit " ++ toString bit ++ " is outside frame 0x" ++ Text.hex 8 address.toNat
  | .notBitAddress text => "Invalid bit address '" ++ text ++ "'"
  | .payloadTooLong words =>
    "Type 1 payload of " ++ toString words ++ " words exceeds the packet limit"
  | .fieldTooLong tag bytes =>
    "Header field '" ++ String.singleton (Char.ofNat tag.toNat) ++ "' is too long (" ++
      toString bytes ++ " bytes)"
  | .missingSync => "Invalid bitstream: Missing sync word"
  | .noPackets => "Invalid bitstream: No packets after the sync word"
  | .file fault => "IO error: " ++ fault.message

end ConfigStream
