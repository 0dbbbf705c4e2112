import ConfigStream.Frame.Memory
import ConfigStream.Packet.Command
import ConfigStream.Packet.Header

/-!
# What a stream says

Walking a stream gives events: set configuration bits, and diagnostics for everything else that is
met on the way. A `Report` is all events in stream order. Check sums and syndromes that disagree
are diagnostics like any other; `failedChecks` picks them out.
-/

namespace ConfigStream

/-- Something met in a stream, other than a data bit. -/
inductive Diagnostic where
  /-- A sync word at the offset. -/
  | syncAt (offset : Nat)
  /-- The all-ones word where a header is due. -/
  | dummyAt (offset : Nat)
  /-- No sync word at or after the offset. -/
  | noSyncFrom (offset : Nat)
  | nop
  /-- A type 1 packet that reads, or has the reserved opcode. It carries no payload. -/
  | read (register : Register)
  | write (register : Register) (words : Nat)
  /-- A type 2 packet for the register written last. -/
  | continued (register : Register) (words : Nat)
  | moveTo (address : UInt32)
  /-- A frame address write of other than one word. -/
  | moveLength (words : Nat)
  | command (command : Command)
  /-- A payload word of a register without a meaning here. -/
  | data (register : Register) (word : UInt32)
  | crcCheck (written computed : UInt32)
  | eccCheck (frame : UInt32) (observed computed : UInt64)
  /-- A header of unknown type. The stream is not read further. -/
  | unknownHeader (packetType : UInt8) (header : UInt32)
deriving DecidableEq, Repr

namespace Diagnostic

/-- Whether a check has failed. -/
def isFailedCheck : Diagnostic → Bool
  | .crcCheck written computed => written != computed
  | .eccCheck _ observed computed => observed != computed
  | _ => false

/-- What is written about the check itself or the thing met. -/
def statement : Diagnostic → String
  | .syncAt offset => "sync word at offset " ++ toString offset
  | .dummyAt offset => "desync at offset " ++ toString offset
  | .noSyncFrom offset => "no sync word after offset " ++ toString offset
  | .nop => "NOP"
  | .read register => "READ " ++ register.text
  | .write register words =>
    "WRITE " ++ register.text ++ " (" ++ toString words ++ " words)"
  | .continued register words =>
    "type 2 packet, " ++ toString words ++ " words to " ++ register.text
  | .moveTo address => "FAR 0x" ++ Text.hex 8 address.toNat
  | .moveLength words => "FAR write carries " ++ toString words ++ " words"
  | .command issued => "CMD " ++ issued.text
  | .data register word => register.text ++ " 0x" ++ Text.hex 8 word.toNat
  | .crcCheck written computed =>
    "CRC 0x" ++ Text.hex 8 written.toNat ++ " computed 0x" ++ Text.hex 8 computed.toNat
  | .eccCheck frame observed computed =>
    "ECC F0x" ++ Text.hex 8 frame.toNat ++ " 0x" ++ Text.hex 12 observed.toNat ++
      " computed 0x" ++ Text.hex 12 computed.toNat
  | .unknownHeader packetType header =>
    "unknown packet type " ++ toString packetType.toNat ++ " (0x" ++
      Text.hex 8 header.toNat ++ "), stopping"

/-- What marks a failed check. -/
def mark (diagnostic : Diagnostic) : String :=
  if diagnostic.isFailedCheck then
    match diagnostic with
    | .crcCheck .. => " *****"
    | _ => " ~~~~~"
  else ""

/-- The written form. -/
def text (diagnostic : Diagnostic) : String :=
  diagnostic.statement ++ diagnostic.mark

end Diagnostic

/-- One thing met in a stream. -/
inductive Event where
  | bit (address : BitAddress)
  | diagnostic (diagnostic : Diagnostic)
deriving DecidableEq, Repr

namespace Event

/-- The bit of an event that is one. -/
def bit? : Event → Option BitAddress
  | .bit address => some address
  | .diagnostic _ => none

/-- The diagnostic of an event that is one. -/
def diagnostic? : Event → Option Diagnostic
  | .bit _ => none
  | .diagnostic found => some found

/-- The line of an event in a commented listing: a diagnostic is a comment. -/
def text : Event → String
  | .bit address => address.text
  | .diagnostic found => "# " ++ found.text

end Event

/-- Everything met in a stream, in stream order. -/
structure Report where
  events : List Event
deriving DecidableEq, Repr

namespace Report

/-- The data bits in stream order. -/
def bits (report : Report) : List BitAddress := report.events.filterMap Event.bit?

/-- The diagnostics in stream order. -/
def diagnostics (report : Report) : List Diagnostic := report.events.filterMap Event.diagnostic?

/-- The failed checks in stream order. -/
def failedChecks (report : Report) : List Diagnostic := report.diagnostics.filter (·.isFailedCheck)

/-- Whether every check has passed. -/
def isClean (report : Report) : Bool := report.failedChecks.isEmpty

/-- The frames with at least one data bit. -/
def frames (report : Report) : FrameMemory := .ofBits report.bits

/-- The listing of the bits, one a line, with the diagnostics as comments if asked for. -/
def listing (report : Report) (comments : Bool) : String :=
  let shown := if comments then report.events else report.bits.map .bit
  shown.foldl (fun text event => text ++ event.text ++ "\n") ""

end Report

end ConfigStream
