import ConfigStream.Checksum.Crc
import ConfigStream.Fault
import ConfigStream.Packet.Command
import ConfigStream.Packet.Header
import ConfigStream.Word

/-!
# Writing a stream

A writer appends to the bytes written so far and keeps the transport check sum: every payload word
extends it with the register addressed last, while header words and raw bytes leave it alone. A
`Call` is one thing a writer can be asked to do, and a stream is written by running a list of them.
A call that fails leaves the writer as it was.
-/

namespace ConfigStream

/-- What has been written, the check sum of the payload since the last reset, the register that
further payload is counted for, and how often the check sum was written out. -/
structure Writer where
  bytes : Array UInt8 := #[]
  crc : UInt32 := 0
  register : Register := .crc
  flushes : Nat := 0
deriving DecidableEq, Repr

namespace Writer

/-- Append bytes. -/
def raw (writer : Writer) (bytes : List UInt8) : Writer :=
  { writer with bytes := writer.bytes ++ bytes }

/-- Append a word that is not payload. -/
def word (writer : Writer) (word : UInt32) : Writer :=
  writer.raw (Word.toBytes word)

/-- Append a payload word. -/
def payloadWord (writer : Writer) (word : UInt32) : Writer :=
  let crc := Crc.extend writer.register.raw.toUInt32 word writer.crc
  { writer.word word with crc }

/-- Append payload words. -/
def payload (writer : Writer) (words : List UInt32) : Writer :=
  words.foldl payloadWord writer

/-- Address a register: further payload is counted for it. -/
def address (writer : Writer) (register : Register) : Writer :=
  { writer with register }

/-- Append a header string: its tag, its length with the closing zero in 16 bits, its bytes and a
zero. -/
def field (writer : Writer) (tag : UInt8) (value : String) : Except Fault Writer :=
  let text := value.toUTF8.data.toList
  let length := text.length + 1
  if length < Text.limit16 then
    .ok (writer.raw (tag :: UInt8.ofNat (length / 256) :: UInt8.ofNat length :: (text ++ [0])))
  else .error (.fieldTooLong tag text.length)

/-- Append a type 1 packet. -/
def short (writer : Writer) (opcode : Opcode) (register : Register) (words : List UInt32) :
    Except Fault Writer :=
  if words.length ≤ Header.type1Limit then
    .ok (((writer.address register).word (Header.type1 opcode register words.length).encode).payload
      words)
  else .error (.payloadTooLong words.length)

/-- Append a type 2 packet for the register addressed last. -/
def long (writer : Writer) (words : List UInt32) : Writer :=
  (writer.word (Header.long words.length).encode).payload words

/-- Append a packet that does nothing. It addresses the check sum register. -/
def nop (writer : Writer) : Writer :=
  (writer.address .crc).word Header.nop.encode

/-- Append a number of packets that do nothing. -/
def nops (writer : Writer) : Nat → Writer
  | 0 => writer
  | count + 1 => writer.nop.nops count

/-- Append a write of one word to a register. -/
def writeTo (writer : Writer) (register : Register) (value : UInt32) : Writer :=
  ((writer.address register).word (Header.write register 1).encode).payloadWord value

/-- Append a write to the command register. -/
def command (writer : Writer) (command : Command) : Writer :=
  writer.writeTo .cmd command.raw

/-- Start the check sum anew. -/
def resetCrc (writer : Writer) : Writer :=
  { writer with crc := 0 }

/-- Write the check sum out and start it anew. -/
def flush (writer : Writer) : Writer :=
  let written := writer.writeTo .crc writer.crc
  { written.resetCrc with flushes := written.flushes + 1 }

/-- One thing a writer can be asked to do. -/
inductive Call where
  | raw (bytes : List UInt8)
  | field (tag : UInt8) (value : String)
  | word (word : UInt32)
  | payload (word : UInt32)
  | short (opcode : Opcode) (register : Register) (words : List UInt32)
  | long (words : List UInt32)
  | nop
  | nops (count : Nat)
  | register (register : Register) (value : UInt32)
  | command (command : Command)
  | flush
  | resetCrc
deriving DecidableEq, Repr

/-- Do what a call asks. -/
def perform (writer : Writer) : Call → Except Fault Writer
  | .raw bytes => .ok (writer.raw bytes)
  | .field tag value => writer.field tag value
  | .word word => .ok (writer.word word)
  | .payload word => .ok (writer.payloadWord word)
  | .short opcode register words => writer.short opcode register words
  | .long words => .ok (writer.long words)
  | .nop => .ok writer.nop
  | .nops count => .ok (writer.nops count)
  | .register register value => .ok (writer.writeTo register value)
  | .command command => .ok (writer.command command)
  | .flush => .ok writer.flush
  | .resetCrc => .ok writer.resetCrc

/-- Do what a list of calls asks, up to the first that fails. -/
def run (writer : Writer) : List Call → Except Fault Writer
  | [] => .ok writer
  | call :: calls =>
    match writer.perform call with
    | .ok next => next.run calls
    | .error fault => .error fault

/-- The calls at the end of a list are made if all before them succeed. -/
theorem run_append (writer : Writer) (first second : List Call) :
    writer.run (first ++ second) =
      (writer.run first).bind fun middle => middle.run second := by
  induction first generalizing writer with
  | nil => rfl
  | cons call calls ih =>
    simp only [List.cons_append, run]
    cases writer.perform call with
    | ok next => exact ih next
    | error fault => rfl

/-- Payload is appended word by word. -/
theorem bytes_payload (writer : Writer) (words : List UInt32) :
    (writer.payload words).bytes.toList =
      writer.bytes.toList ++ words.flatMap Word.toBytes := by
  induction words generalizing writer with
  | nil => simp [payload]
  | cons word words ih =>
    show ((writer.payloadWord word).payload words).bytes.toList = _
    rw [ih]
    simp [payloadWord, Writer.word, raw]

/-- Payload extends the check sum under the register addressed last. -/
theorem crc_payload (writer : Writer) (words : List UInt32) :
    (writer.payload words).crc =
      Crc.extendAll writer.crc (words.map fun word => (writer.register.raw.toUInt32, word)) := by
  induction words generalizing writer with
  | nil => rfl
  | cons word words ih =>
    show ((writer.payloadWord word).payload words).crc = _
    rw [ih]
    rfl

end Writer

end ConfigStream
