import ConfigStream.Checksum.Crc
import ConfigStream.Fault
import ConfigStream.Packet.Header
import ConfigStream.Word

/-!
# Reading a stream

A reader stands at a position in a byte sequence and keeps the transport check sum of the payload
words it has read. `findSync` looks for the sync word at every byte, since nothing before it is
aligned.
-/

namespace ConfigStream

/-- The offset of the first sync word in bytes that begin at `offset`, and the bytes after it. -/
def findSync (offset : Nat) : List UInt8 → Option (Nat × List UInt8)
  | [] => none
  | byte :: rest =>
    if Word.first? (byte :: rest) = some syncWord then some (offset, rest.drop 3)
    else findSync (offset + 1) rest

/-- A place in a byte sequence: its offset, the bytes from there on, the check sum since the last
reset, and the register that payload is counted for. -/
structure Reader where
  position : Nat
  rest : List UInt8
  crc : UInt32
  register : Register
deriving DecidableEq, Repr

namespace Reader

/-- A reader at the start of a byte sequence. -/
def ofBytes (bytes : List UInt8) : Reader := ⟨0, bytes, 0, .crc⟩

/-- The number of bytes left. -/
def remaining (reader : Reader) : Nat := reader.rest.length

/-- The next word, without reading it. -/
def peek? (reader : Reader) : Option UInt32 := Word.first? reader.rest

/-- Whether a whole word is left. -/
def hasWord (reader : Reader) : Bool := reader.peek?.isSome

/-- Skip bytes. -/
def skip (reader : Reader) (bytes : Nat) : Reader :=
  { reader with position := reader.position + bytes, rest := reader.rest.drop bytes }

/-- Read a word that is not payload. -/
def nextWord (reader : Reader) : Except Fault UInt32 × Reader :=
  match reader.peek? with
  | some word => (.ok word, reader.skip 4)
  | none => (.error (.endInPayload reader.position), reader)

/-- Read a packet header. Headers do not count for the check sum. -/
def nextHeader (reader : Reader) : Except Fault UInt32 × Reader := reader.nextWord

/-- Read a payload word. -/
def nextPayload (reader : Reader) : Except Fault UInt32 × Reader :=
  match reader.nextWord with
  | (.ok word, next) =>
    (.ok word, { next with crc := Crc.extend next.register.raw.toUInt32 word next.crc })
  | failed => failed

/-- Go past the next sync word, giving its offset. If there is none, all bytes are skipped. -/
def skipToSync (reader : Reader) : Except Fault Nat × Reader :=
  match findSync reader.position reader.rest with
  | some (offset, rest) => (.ok offset, { reader with position := offset + 4, rest })
  | none => (.error (.noSync reader.position), reader.skip reader.remaining)

/-- Choose the register that payload is counted for. -/
def setRegister (reader : Reader) (register : Register) : Reader := { reader with register }

/-- Start the check sum anew. -/
def resetCrc (reader : Reader) : Reader := { reader with crc := 0 }

end Reader

end ConfigStream
