import ConfigStream.Decoder
import ConfigStream.Proofs.Packet.Basic

/-!
# Between two packets

Between two packets a decoder remembers a `Boundary`: the register written last, the check sum and
the place in the frame. `Boundary.take` says what one packet tells and does to it, whatever its
payload: the payload comes first (`Boundary.paid`), and then the end of the packet
(`Boundary.ended`).
-/

namespace ConfigStream

/-! ## Registers that a decoder tells apart -/

namespace Register

/-- The numbers of the registers that a decoder tells apart. -/
@[simp]
theorem raw_named : crc.raw = 0 ∧ far.raw = 1 ∧ fdri.raw = 2 ∧ cmd.raw = 4 :=
  ⟨rfl, rfl, rfl, rfl⟩

/-- Registers with different numbers are different. -/
@[simp]
theorem ne_of_raw_ne {first second : Register} (h : first.raw ≠ second.raw) : first ≠ second := by
  intro heq
  exact h (congrArg raw heq)

end Register

/-! ## Payload -/

/-- Take several words of frame data. -/
def FrameCursor.takeAll (order : FrameOrder) (cursor : FrameCursor) :
    List UInt32 → FrameCursor × List Event
  | [] => (cursor, [])
  | word :: words =>
    let (next, events) := cursor.take order word
    let (last, more) := next.takeAll order words
    (last, events ++ more)

namespace Decoder

/-- The check sum after payload for a register: a type 1 write of the check sum does not count. -/
def payloadCrc (register : Register) (long : Bool) (crc : UInt32) (words : List UInt32) : UInt32 :=
  if register = .crc ∧ long = false then crc
  else Crc.extendAll crc (words.map fun word => (register.raw.toUInt32, word))

/-- The place in the frame after payload for a register. -/
def payloadCursor (order : FrameOrder) (register : Register) (cursor : FrameCursor)
    (words : List UInt32) : FrameCursor :=
  if register = .fdri then (cursor.takeAll order words).1 else cursor

/-- What a payload word tells that is no frame data. -/
def wordEvents (register : Register) (long : Bool) (word : UInt32) : List Event :=
  if long then [.diagnostic (.data register word)]
  else if register = .far ∨ register = .crc then []
  else if register = .cmd then [.diagnostic (.command ⟨word⟩)]
  else [.diagnostic (.data register word)]

/-- What payload for a register tells. -/
def payloadEvents (order : FrameOrder) (register : Register) (long : Bool) (cursor : FrameCursor)
    (words : List UInt32) : List Event :=
  if register = .fdri then (cursor.takeAll order words).2
  else words.flatMap (wordEvents register long)

/-! ## Packet ends -/

/-- The check sum after a packet with the given last word. -/
def endCrc (register : Register) (long : Bool) (last : Option UInt32) (crc : UInt32) : UInt32 :=
  if long = false ∧ (register = .crc ∨ register = .cmd ∧ last = some Command.rcrc.raw) then 0
  else crc

/-- The place in the frame after a packet with the given last word. -/
def endCursor (order : FrameOrder) (register : Register) (long : Bool) (last : Option UInt32)
    (cursor : FrameCursor) : FrameCursor :=
  if long then cursor
  else if register = .far then (last.map .start).getD cursor
  else if register = .crc then ((order.next? cursor.frame).map .start).getD cursor
  else cursor

/-- What the end of a packet with the given last word tells. -/
def endEvents (register : Register) (long : Bool) (last : Option UInt32) (crc : UInt32) :
    List Event :=
  if long then []
  else if register = .far then (last.map fun address => .diagnostic (.moveTo address)).toList
  else if register = .crc then
    (last.map fun written => .diagnostic (.crcCheck written crc)).toList
  else []

end Decoder

/-! ## Boundaries -/

/-- What a decoder remembers between two packets. -/
structure Boundary where
  register : Register
  crc : UInt32
  cursor : FrameCursor
deriving DecidableEq, Repr

namespace Boundary

open Decoder

/-- Where a decoder is after the first sync word of a stream. -/
def atSync : Boundary := ⟨.crc, 0, .start 0⟩

/-- A decoder that waits for a header. -/
def decoder (boundary : Boundary) (position : Nat) : Decoder :=
  ⟨.header, position, [], boundary.register, boundary.crc, boundary.cursor⟩

/-- A boundary after payload for its register. -/
def paid (order : FrameOrder) (boundary : Boundary) (long : Bool) (words : List UInt32) :
    Boundary :=
  ⟨boundary.register, payloadCrc boundary.register long boundary.crc words,
    payloadCursor order boundary.register boundary.cursor words⟩

/-- A boundary after the end of a packet for its register. -/
def ended (order : FrameOrder) (boundary : Boundary) (long : Bool) (last : Option UInt32) :
    Boundary :=
  ⟨boundary.register, endCrc boundary.register long last boundary.crc,
    endCursor order boundary.register long last boundary.cursor⟩

/-- A boundary after a packet's payload and its end. -/
def settled (order : FrameOrder) (boundary : Boundary) (long : Bool) (words : List UInt32) :
    Boundary :=
  (boundary.paid order long words).ended order long words.getLast?

/-- What a packet's payload and its end tell. -/
def told (order : FrameOrder) (boundary : Boundary) (long : Bool) (words : List UInt32) :
    List Event :=
  payloadEvents order boundary.register long boundary.cursor words ++
    endEvents boundary.register long words.getLast?
      (payloadCrc boundary.register long boundary.crc words)

/-- What a packet does to a boundary, and what it tells. -/
def take (order : FrameOrder) (boundary : Boundary) : Packet → Boundary × List Event
  | .bare opcode register _ =>
    (boundary, [.diagnostic (if opcode = .nop then .nop else .read register)])
  | .write register words =>
    let begun : Boundary := { boundary with register }
    let lengths :=
      if register = .far ∧ words.length ≠ 1 then [.diagnostic (.moveLength words.length)] else []
    (begun.settled order false words,
      .diagnostic (.write register words.length) :: lengths ++ begun.told order false words)
  | .long _ words =>
    (boundary.settled order true words,
      .diagnostic (.continued boundary.register words.length) :: boundary.told order true words)

/-- What a sequence of packets does to a boundary, and what it tells. -/
def takeAll (order : FrameOrder) (boundary : Boundary) : List Packet → Boundary × List Event
  | [] => (boundary, [])
  | packet :: packets =>
    let (next, events) := boundary.take order packet
    let (last, more) := next.takeAll order packets
    (last, events ++ more)

variable {order : FrameOrder}

/-- The end of a packet, at any place in the stream. -/
theorem endPacket_decoder (boundary : Boundary) (long : Bool) (last : Option UInt32)
    (position : Nat) (phase : Phase) :
    { boundary.decoder position with phase }.endPacket order long last =
      ((boundary.ended order long last).decoder position,
        endEvents boundary.register long last boundary.crc) := by
  obtain ⟨register, crc, cursor⟩ := boundary
  simp only [ended, endCrc, endCursor, endEvents, Decoder.endPacket, decoder]
  cases long with
  | true => rfl
  | false =>
      by_cases hfar : register = .far
      · cases last <;> simp [hfar]
      · by_cases hcrc : register = .crc
        · cases last <;> cases order.next? cursor.frame <;> simp [hcrc]
        · by_cases hcmd : register = .cmd ∧ last = some Command.rcrc.raw
          · simp [hcmd]
          · simp [hfar, hcrc, hcmd]

/-- A payload word tells what payload of one word tells. -/
theorem payloadWord_decoder (boundary : Boundary) (long : Bool) (word : UInt32) (position : Nat)
    (phase : Phase) :
    { boundary.decoder position with phase }.payloadWord order long word =
      ({ (boundary.paid order long [word]).decoder position with phase },
        payloadEvents order boundary.register long boundary.cursor [word]) := by
  obtain ⟨register, crc, cursor⟩ := boundary
  simp only [decoder, paid, payloadWord, payloadCrc, payloadCursor, payloadEvents, wordEvents,
    Crc.extendAll, FrameCursor.takeAll, List.map_cons, List.map_nil, List.foldl_cons,
    List.foldl_nil, List.flatMap_cons, List.flatMap_nil, List.append_nil]
  by_cases hfdri : register = .fdri
  · simp [hfdri]
  · cases long with
    | true => simp [hfdri]
    | false =>
        by_cases hfar : register = .far
        · simp [hfar]
        · by_cases hcrc : register = .crc
          · simp [hcrc]
          · by_cases hcmd : register = .cmd
            · simp [hcmd]
            · simp [hfdri, hfar, hcrc, hcmd]

/-- No payload changes nothing. -/
theorem paid_nil (boundary : Boundary) (long : Bool) : boundary.paid order long [] = boundary := by
  simp [paid, payloadCrc, payloadCursor, Crc.extendAll, FrameCursor.takeAll]

/-- Payload is taken one word after another. -/
theorem paid_cons (boundary : Boundary) (long : Bool) (word : UInt32) (words : List UInt32) :
    boundary.paid order long (word :: words) =
      (boundary.paid order long [word]).paid order long words := by
  simp only [paid, payloadCrc, payloadCursor]
  congr 1 <;> split <;> rfl

theorem settled_nil (boundary : Boundary) (long : Bool) :
    boundary.settled order long [] = boundary.ended order long none := by
  rw [settled, paid_nil, List.getLast?_nil]

theorem settled_cons (boundary : Boundary) (long : Bool) (word next : UInt32)
    (words : List UInt32) :
    boundary.settled order long (word :: next :: words) =
      (boundary.paid order long [word]).settled order long (next :: words) := by
  rw [settled, paid_cons, List.getLast?_cons_cons, settled]

theorem told_nil (boundary : Boundary) (long : Bool) :
    boundary.told order long [] = endEvents boundary.register long none boundary.crc := by
  simp [told, payloadEvents, payloadCrc, FrameCursor.takeAll, Crc.extendAll]

/-- Payload tells what its words tell, one after another. -/
theorem payloadEvents_cons (boundary : Boundary) (long : Bool) (word : UInt32)
    (words : List UInt32) :
    payloadEvents order boundary.register long boundary.cursor (word :: words) =
      payloadEvents order boundary.register long boundary.cursor [word] ++
        payloadEvents order (boundary.paid order long [word]).register long
          (boundary.paid order long [word]).cursor words := by
  simp only [paid, payloadEvents, payloadCursor]
  split <;> simp [FrameCursor.takeAll]

theorem told_cons (boundary : Boundary) (long : Bool) (word next : UInt32)
    (words : List UInt32) :
    boundary.told order long (word :: next :: words) =
      payloadEvents order boundary.register long boundary.cursor [word] ++
        (boundary.paid order long [word]).told order long (next :: words) := by
  have hcrc : (boundary.paid order long (word :: next :: words)).crc = _ :=
    congrArg Boundary.crc (paid_cons boundary long word (next :: words))
  simp only [paid] at hcrc
  rw [told, payloadEvents_cons, List.append_assoc, List.getLast?_cons_cons, hcrc]
  rfl

/-- A check sum write and a check sum reset command start the check sum anew, any other write
extends it. -/
theorem crc_settled_write (boundary : Boundary) (words : List UInt32) :
    (boundary.settled order false words).crc =
      if boundary.register = .crc ∨
          boundary.register = .cmd ∧ words.getLast? = some Command.rcrc.raw then 0
      else Crc.extendAll boundary.crc
        (words.map fun word => (boundary.register.raw.toUInt32, word)) := by
  simp only [settled, ended, endCrc, paid, payloadCrc, and_true, true_and]
  split
  · rfl
  · rename_i hreset
    rw [if_neg fun h => hreset (.inl h)]

end Boundary

end ConfigStream
