import ConfigStream.Checksum.Crc
import ConfigStream.Frame.Order
import ConfigStream.Report

/-!
# Following a stream

A `Decoder` takes a stream byte by byte. Up to a sync word it looks at every run of four bytes;
after it, bytes are taken four at a time as headers and payload. What it remembers between bytes is
the register written last, the transport check sum, and the place in the frame that data goes to.
`decode` feeds a whole byte sequence and asks how it ended: a sequence without a sync word and one
that ends in the middle of a payload are faults, everything else is a report.
-/

namespace ConfigStream

/-- A place in a frame: the word that data goes to next, the reserved bits met so far, and the
syndrome of the data met so far. -/
structure FrameCursor where
  frame : UInt32
  word : Fin Frame.wordCount
  observed : UInt64
  computed : UInt64
deriving DecidableEq, Repr

namespace FrameCursor

/-- The first word of a frame. -/
def start (frame : UInt32) : FrameCursor := ⟨frame, ⟨0, by decide⟩, 0, 0⟩

/-- Take one word of frame data. After the last word of a frame its syndrome is checked, and data
goes on in the frame that follows, or in the same one again. -/
def take (order : FrameOrder) (cursor : FrameCursor) (data : UInt32) :
    FrameCursor × List Event :=
  let bits := (Frame.dataBitsOf cursor.word data).map fun bit =>
    Event.bit ⟨cursor.frame, cursor.word, bit⟩
  let observed := cursor.observed ||| Frame.storedPart cursor.word data
  let computed := cursor.computed ^^^ Syndrome.ofWord cursor.word data
  if inFrame : cursor.word + 1 < Frame.wordCount then
    (⟨cursor.frame, ⟨cursor.word + 1, inFrame⟩, observed, computed⟩, bits)
  else
    (start ((order.next? cursor.frame).getD cursor.frame),
      bits ++ [.diagnostic (.eccCheck cursor.frame observed computed)])

end FrameCursor

/-- What the next word of a stream is. -/
inductive Phase where
  /-- No sync word has been met. -/
  | unsynced
  /-- Sync was given up; the search goes on from the offset. -/
  | desynced (start : Nat)
  /-- A packet header. -/
  | header
  /-- A payload word: whether the packet is of type 2, how many payload words follow the next, and
  the payload word before it. -/
  | payload (long : Bool) (further : Nat) (last : Option UInt32)
  /-- Nothing: a header of unknown type was met. -/
  | stopped
deriving DecidableEq, Repr

/-- What is remembered between the bytes of a stream. At most three bytes are pending; `position`
is the offset of the first of them. -/
structure Decoder where
  phase : Phase
  position : Nat
  pending : List UInt8
  register : Register
  crc : UInt32
  cursor : FrameCursor
deriving DecidableEq, Repr

namespace Decoder

/-- Before the first byte of a stream. -/
def start : Decoder := ⟨.unsynced, 0, [], .crc, 0, .start 0⟩

/-- The end of a packet's payload, whose last word is given. A frame address write moves to the
frame, a check sum write is compared, starts the check sum anew and moves on in the order, and a
check sum reset command starts it anew. -/
def endPacket (order : FrameOrder) (decoder : Decoder) (long : Bool) (last : Option UInt32) :
    Decoder × List Event :=
  let decoder := { decoder with phase := .header }
  if long then (decoder, [])
  else if decoder.register = .far then
    match last with
    | some address =>
      ({ decoder with cursor := .start address }, [.diagnostic (.moveTo address)])
    | none => (decoder, [])
  else if decoder.register = .crc then
    let cursor := match order.next? decoder.cursor.frame with
      | some next => .start next
      | none => decoder.cursor
    let checks := match last with
      | some written => [.diagnostic (.crcCheck written decoder.crc)]
      | none => []
    ({ decoder with crc := 0, cursor }, checks)
  else if decoder.register = .cmd ∧ last = some Command.rcrc.raw then
    ({ decoder with crc := 0 }, [])
  else (decoder, [])

/-- The start of a packet's payload of the given number of words. -/
def beginPacket (order : FrameOrder) (decoder : Decoder) (long : Bool) (words : Nat) :
    Decoder × List Event :=
  match words with
  | 0 => decoder.endPacket order long none
  | further + 1 => ({ decoder with phase := .payload long further none }, [])

/-- One payload word. It counts for the check sum unless it is a check sum itself. -/
def payloadWord (order : FrameOrder) (decoder : Decoder) (long : Bool) (word : UInt32) :
    Decoder × List Event :=
  let counted :=
    { decoder with crc := Crc.extend decoder.register.raw.toUInt32 word decoder.crc }
  if decoder.register = .fdri then
    let (cursor, events) := decoder.cursor.take order word
    ({ counted with cursor }, events)
  else if long then (counted, [.diagnostic (.data decoder.register word)])
  else if decoder.register = .far then (counted, [])
  else if decoder.register = .crc then (decoder, [])
  else if decoder.register = .cmd then (counted, [.diagnostic (.command ⟨word⟩)])
  else (counted, [.diagnostic (.data decoder.register word)])

/-- A word where a header is due, found at the given offset. -/
def headerWord (order : FrameOrder) (decoder : Decoder) (offset : Nat) (raw : UInt32) :
    Decoder × List Event :=
  if raw = dummyWord then
    ({ decoder with phase := .desynced (offset + 4) }, [.diagnostic (.dummyAt offset)])
  else
    match Header.decode raw with
    | .type1 .write register words =>
      let (next, events) := { decoder with register }.beginPacket order false words
      let lengths :=
        if register = .far ∧ words ≠ 1 then [.diagnostic (.moveLength words)] else []
      (next, .diagnostic (.write register words) :: lengths ++ events)
    | .type1 .nop _ _ => (decoder, [.diagnostic .nop])
    | .type1 _ register _ => (decoder, [.diagnostic (.read register)])
    | .type2 _ words =>
      let (next, events) := decoder.beginPacket order true words
      (next, .diagnostic (.continued decoder.register words) :: events)
    | .unknown packetType raw =>
      ({ decoder with phase := .stopped }, [.diagnostic (.unknownHeader packetType raw)])

/-- Take four bytes as one word; `position` is already the offset after them. -/
def takeWord (order : FrameOrder) (decoder : Decoder) (offset : Nat) (word : UInt32) :
    Decoder × List Event :=
  match decoder.phase with
  | .header => decoder.headerWord order offset word
  | .payload long further _ =>
    let (next, events) := decoder.payloadWord order long word
    match further with
    | 0 =>
      let (next, ending) := next.endPacket order long (some word)
      (next, events ++ ending)
    | further + 1 => ({ next with phase := .payload long further (some word) }, events)
  | .unsynced | .desynced _ | .stopped => (decoder, [])

/-- Take the four bytes from the offset on while looking for a sync word. If they are none, the
search goes on at the byte after the first. -/
def takeWindow (decoder : Decoder) (word : UInt32) (later : List UInt8) : Decoder × List Event :=
  if word = syncWord then
    ({ decoder with phase := .header, position := decoder.position + 4, pending := [] },
      [.diagnostic (.syncAt decoder.position)])
  else ({ decoder with position := decoder.position + 1, pending := later }, [])

/-- Take one byte. -/
def feed (order : FrameOrder) (decoder : Decoder) (byte : UInt8) : Decoder × List Event :=
  match decoder.pending with
  | [a, b, c] =>
    let word := Word.ofBytes a b c byte
    match decoder.phase with
    | .unsynced | .desynced _ => decoder.takeWindow word [b, c, byte]
    | _ =>
      { decoder with position := decoder.position + 4, pending := [] }.takeWord order
        decoder.position word
  | pending => ({ decoder with pending := pending ++ [byte] }, [])

/-- Take a byte sequence, adding the events to those met before. -/
def feedAll (order : FrameOrder) (before : Decoder × Array Event) (bytes : List UInt8) :
    Decoder × Array Event :=
  bytes.foldl
    (fun (decoder, events) byte =>
      let (next, more) := decoder.feed order byte
      (next, events ++ more))
    before

/-- A sequence may be taken in two parts. -/
theorem feedAll_append (order : FrameOrder) (before : Decoder × Array Event)
    (first second : List UInt8) :
    feedAll order before (first ++ second) = feedAll order (feedAll order before first) second :=
  List.foldl_append

/-- The end of the stream. Fewer than four bytes where a header is due are left out of account. -/
def finish (decoder : Decoder) : Except Fault (List Event) :=
  match decoder.phase with
  | .unsynced => .error (.noSync 0)
  | .desynced start => .ok [.diagnostic (.noSyncFrom start)]
  | .header | .stopped => .ok []
  | .payload .. => .error (.endInPayload decoder.position)

end Decoder

/-- Follow a complete stream; the order says where frame data goes on after a full frame. -/
def decode (order : FrameOrder) (bytes : List UInt8) : Except Fault Report :=
  let (decoder, events) := Decoder.feedAll order (.start, #[]) bytes
  match decoder.finish with
  | .ok ending => .ok ⟨events.toList ++ ending⟩
  | .error fault => .error fault

end ConfigStream
