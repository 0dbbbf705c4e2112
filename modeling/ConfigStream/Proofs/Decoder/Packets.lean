import ConfigStream.Proofs.Decoder.Boundary
import ConfigStream.Proofs.Decoder.Reading
import Mathlib.Data.List.Induction

/-!
# Reading packet by packet

A decoder that waits for a header and is given the bytes of a packet tells what `Boundary.take` says
(`Reads.packet`), and so it reads the bytes of any number of packets (`Reads.packets`).
-/

namespace ConfigStream

namespace Decoder

variable {order : FrameOrder}

/-! ## Payload -/

/-- The last payload word of a packet ends it. -/
theorem takeWord_last (boundary : Boundary) (position offset : Nat) (long : Bool) (word : UInt32)
    (before : Option UInt32) :
    { boundary.decoder position with phase := .payload long 0 before }.takeWord order offset word =
      ((boundary.settled order long [word]).decoder position, boundary.told order long [word]) := by
  simp only [takeWord]
  rw [Boundary.payloadWord_decoder]
  simp only [Boundary.endPacket_decoder]
  rfl

/-- Any other payload word waits for the next. -/
theorem takeWord_further (boundary : Boundary) (position offset : Nat) (long : Bool)
    (word : UInt32) (further : Nat) (before : Option UInt32) :
    { boundary.decoder position with phase := .payload long (further + 1) before }.takeWord order
        offset word =
      ({ (boundary.paid order long [word]).decoder position with
          phase := .payload long further (some word) },
        payloadEvents order boundary.register long boundary.cursor [word]) := by
  simp only [takeWord]
  rw [Boundary.payloadWord_decoder]

/-- The payload of a packet, from its first word on, is read as one, and with its last word the
packet ends. -/
theorem Reads.payload (boundary : Boundary) (position : Nat) (long : Bool) (word : UInt32)
    (words : List UInt32) (before : Option UInt32) :
    Reads order
      { boundary.decoder position with phase := .payload long words.length before }
      ((word :: words).flatMap Word.toBytes) (boundary.told order long (word :: words))
      ((boundary.settled order long (word :: words)).decoder
        (position + 4 * (word :: words).length)) := by
  induction words generalizing boundary position word before with
  | nil =>
      rw [List.flatMap_cons, List.flatMap_nil, List.append_nil]
      exact .word rfl rfl (takeWord_last boundary (position + 4) position long word before)
  | cons next words ih =>
      have hword : Reads order
          { boundary.decoder position with phase := .payload long (words.length + 1) before }
          (Word.toBytes word) (payloadEvents order boundary.register long boundary.cursor [word])
          { (boundary.paid order long [word]).decoder (position + 4) with
            phase := .payload long words.length (some word) } :=
        .word rfl rfl (takeWord_further boundary (position + 4) position long word _ before)
      have hwords := ih (boundary.paid order long [word]) (position + 4) next (some word)
      have hposition : position + 4 * (word :: next :: words).length =
          position + 4 + 4 * (next :: words).length := by
        simp only [List.length_cons]
        omega
      rw [List.flatMap_cons, Boundary.told_cons, Boundary.settled_cons, hposition]
      exact hword.trans hwords

variable (order) in
/-- Payload that ends early leaves the decoder where more of it is due. -/
theorem Reads.payloadPart (boundary : Boundary) (position : Nat) (long : Bool)
    (words : List UInt32) (missing : Nat) (before : Option UInt32) :
    ∃ last, Reads order
      { boundary.decoder position with phase := .payload long (words.length + missing) before }
      (words.flatMap Word.toBytes)
      (payloadEvents order boundary.register long boundary.cursor words)
      { (boundary.paid order long words).decoder (position + 4 * words.length) with
        phase := .payload long missing last } := by
  induction words generalizing boundary position before with
  | nil =>
      refine ⟨before, ?_⟩
      rw [boundary.paid_nil, show payloadEvents order boundary.register long boundary.cursor [] = []
        from ite_self []]
      simpa using Reads.nil
  | cons word words ih =>
      have hword : Reads order
          { boundary.decoder position with
            phase := .payload long (words.length + missing + 1) before }
          (Word.toBytes word) (payloadEvents order boundary.register long boundary.cursor [word])
          { (boundary.paid order long [word]).decoder (position + 4) with
            phase := .payload long (words.length + missing) (some word) } :=
        .word rfl rfl (takeWord_further boundary (position + 4) position long word _ before)
      obtain ⟨last, hwords⟩ := ih (boundary.paid order long [word]) (position + 4) (some word)
      refine ⟨last, ?_⟩
      rw [List.flatMap_cons, boundary.payloadEvents_cons, boundary.paid_cons long word words,
        List.length_cons, Nat.mul_succ, Nat.add_comm (4 * words.length), ← Nat.add_assoc,
        Nat.add_right_comm]
      exact hword.trans hwords

/-- A packet that has begun is read to its end. -/
theorem Reads.begun (boundary : Boundary) (position : Nat) (long : Bool) (words : List UInt32) :
    ∃ more,
      Reads order ((boundary.decoder position).beginPacket order long words.length).1
        (words.flatMap Word.toBytes) more
        ((boundary.settled order long words).decoder (position + 4 * words.length)) ∧
      ((boundary.decoder position).beginPacket order long words.length).2 ++ more =
        boundary.told order long words := by
  cases words with
  | nil =>
      have hend : (boundary.decoder position).beginPacket order long 0 =
          ((boundary.ended order long none).decoder position,
            endEvents boundary.register long none boundary.crc) :=
        boundary.endPacket_decoder long none position .header
      rw [List.length_nil, hend, Boundary.settled_nil, Boundary.told_nil]
      exact ⟨[], .nil, List.append_nil _⟩
  | cons word words => exact ⟨_, .payload boundary position long word words none, rfl⟩

/-! ## Packets -/

/-- A header where one is due is taken by `headerWord`. -/
theorem Reads.header {raw : UInt32} {boundary : Boundary} {offset : Nat} {last : Decoder}
    {events : List Event}
    (h : (boundary.decoder (offset + 4)).headerWord order offset raw = (last, events)) :
    Reads order (boundary.decoder offset) (Word.toBytes raw) events last :=
  .word rfl rfl h

/-- A decoder that waits for a header reads a packet, as the packet says, whichever word it has for
a header. -/
theorem Reads.packetWord {packet : Packet} {raw : UInt32} (h : packet.HasHeader raw)
    (boundary : Boundary) (position : Nat) :
    Reads order (boundary.decoder position)
      (Word.toBytes raw ++ packet.payload.flatMap Word.toBytes) (boundary.take order packet).2
      ((boundary.take order packet).1.decoder (position + (4 + 4 * packet.payload.length))) := by
  have hheader {last : Decoder} {events : List Event} :=
    @Reads.header order raw boundary position last events
  rw [headerWord, if_neg h.ne_dummyWord, h.decode_eq] at hheader
  cases packet with
  | bare opcode register announced =>
      have hread : Reads order (boundary.decoder position) (Word.toBytes raw)
          (boundary.take order (.bare opcode register announced)).2
          (boundary.decoder (position + 4)) := by
        apply hheader
        cases opcode with
        | write => exact absurd rfl (h.ne_bare_write register announced)
        | nop | read | reserved => rfl
      rw [Packet.payload, List.flatMap_nil, List.append_nil]
      exact hread
  | write register words =>
      let begun : Boundary := { boundary with register }
      let lengths : List Event :=
        if register = .far ∧ words.length ≠ 1 then [.diagnostic (.moveLength words.length)] else []
      have hread : Reads order (boundary.decoder position) (Word.toBytes raw)
          (.diagnostic (.write register words.length) :: lengths ++
            ((begun.decoder (position + 4)).beginPacket order false words.length).2)
          ((begun.decoder (position + 4)).beginPacket order false words.length).1 :=
        hheader rfl
      obtain ⟨more, hmore, hevents⟩ := Reads.begun begun (position + 4) false words
      have hboth := hread.trans hmore
      rw [List.append_assoc, hevents, Nat.add_assoc] at hboth
      exact hboth
  | long opcode words =>
      have hread : Reads order (boundary.decoder position) (Word.toBytes raw)
          (.diagnostic (.continued boundary.register words.length) ::
            ((boundary.decoder (position + 4)).beginPacket order true words.length).2)
          ((boundary.decoder (position + 4)).beginPacket order true words.length).1 :=
        hheader rfl
      obtain ⟨more, hmore, hevents⟩ := Reads.begun boundary (position + 4) true words
      have hboth := hread.trans hmore
      rw [List.cons_append, hevents, Nat.add_assoc] at hboth
      exact hboth

/-- A decoder that waits for a header reads the bytes of a packet, as the packet says. -/
theorem Reads.packet {packet : Packet} (h : packet.Fits) (boundary : Boundary) (position : Nat) :
    Reads order (boundary.decoder position) packet.bytes (boundary.take order packet).2
      ((boundary.take order packet).1.decoder (position + packet.bytes.length)) := by
  rw [packet.length_bytes]
  exact .packetWord h.hasHeader boundary position

/-- A decoder that waits for a header reads the bytes of packets one packet after another. -/
theorem Reads.packets {packets : List Packet} (h : ∀ packet ∈ packets, packet.Fits)
    (boundary : Boundary) (position : Nat) :
    Reads order (boundary.decoder position) (packets.flatMap Packet.bytes)
      (boundary.takeAll order packets).2
      ((boundary.takeAll order packets).1.decoder
        (position + (packets.flatMap Packet.bytes).length)) := by
  induction packets generalizing boundary position with
  | nil => exact .nil
  | cons packet packets ih =>
      have hfirst : Reads order _ _ _ _ :=
        Reads.packet (h packet List.mem_cons_self) boundary position
      have hrest := ih (fun other hother => h other (List.mem_cons_of_mem _ hother))
        (boundary.take order packet).1 (position + packet.bytes.length)
      rw [List.flatMap_cons, List.length_append, ← Nat.add_assoc]
      exact hfirst.trans hrest

/-! ## The position -/

/-- What a decoder remembers apart from the place in the stream. -/
def boundary (decoder : Decoder) : Boundary := ⟨decoder.register, decoder.crc, decoder.cursor⟩

/-- A decoder with no byte pending is at its boundary, whatever it waits for. -/
theorem eq_decoder {decoder : Decoder} (hpending : decoder.pending = []) :
    decoder = { decoder.boundary.decoder decoder.position with phase := decoder.phase } := by
  obtain ⟨phase, position, pending, register, crc, cursor⟩ := decoder
  obtain rfl : pending = [] := hpending
  rfl

variable (order) in
/-- The start of a packet leaves the position as it is, with no byte pending. -/
theorem beginPacket_position (boundary : Boundary) (position : Nat) (long : Bool) (words : Nat) :
    ((boundary.decoder position).beginPacket order long words).1.position = position ∧
      ((boundary.decoder position).beginPacket order long words).1.pending = [] := by
  cases words with
  | zero =>
      have hend : (boundary.decoder position).endPacket order long none = _ :=
        boundary.endPacket_decoder long none position .header
      exact ⟨congrArg (·.1.position) hend, congrArg (·.1.pending) hend⟩
  | succ further => exact ⟨rfl, rfl⟩

variable (order) in
/-- A word that is taken leaves the position as it is, with no byte pending. -/
theorem takeWord_position (boundary : Boundary) (position offset : Nat) (phase : Phase)
    (word : UInt32) :
    ({ boundary.decoder position with phase }.takeWord order offset word).1.position = position ∧
      ({ boundary.decoder position with phase }.takeWord order offset word).1.pending = [] := by
  cases phase with
  | header =>
      show ((boundary.decoder position).headerWord order offset word).1.position = position ∧
        ((boundary.decoder position).headerWord order offset word).1.pending = []
      unfold headerWord
      split
      · exact ⟨rfl, rfl⟩
      · split
        · exact beginPacket_position order { boundary with register := _ } position false _
        · exact ⟨rfl, rfl⟩
        · exact ⟨rfl, rfl⟩
        · exact beginPacket_position order boundary position true _
        · exact ⟨rfl, rfl⟩
  | payload long further before =>
      cases further with
      | zero =>
          rw [takeWord_last]
          exact ⟨rfl, rfl⟩
      | succ further =>
          rw [takeWord_further]
          exact ⟨rfl, rfl⟩
  | unsynced | desynced | stopped => exact ⟨rfl, rfl⟩

variable (order) in
/-- The position and the pending bytes count the bytes that were taken. -/
theorem feed_position {decoder : Decoder} (hpending : decoder.pending.length ≤ 3) (byte : UInt8) :
    (decoder.feed order byte).1.pending.length ≤ 3 ∧
      (decoder.feed order byte).1.position + (decoder.feed order byte).1.pending.length =
        decoder.position + decoder.pending.length + 1 := by
  by_cases hshort : decoder.pending.length < 3
  · rw [feed_pending hshort]
    simp only [List.length_append, List.length_singleton]
    omega
  · obtain ⟨a, b, c, hthree⟩ := List.length_eq_three.1 (show decoder.pending.length = 3 by omega)
    rw [hthree]
    cases hsearching : decoder.phase.isSearching with
    | true =>
        rw [feed_window hthree hsearching, takeWindow]
        split
        · exact ⟨Nat.zero_le 3, rfl⟩
        · exact ⟨Nat.le_refl 3, Nat.add_right_comm ..⟩
    | false =>
        obtain ⟨phase, position, pending, register, crc, cursor⟩ := decoder
        obtain rfl : pending = [a, b, c] := hthree
        have hplace := takeWord_position order ⟨register, crc, cursor⟩ (position + 4)
          position phase (Word.ofBytes a b c byte)
        have hfeed : Decoder.feed order ⟨phase, position, [a, b, c], register, crc, cursor⟩ byte =
            _ :=
          feed_word hsearching
        generalize Decoder.feed order ⟨phase, position, [a, b, c], register, crc, cursor⟩ byte =
          next at hfeed ⊢
        obtain ⟨hposition, hnone⟩ : next.1.position = position + 4 ∧ next.1.pending = [] :=
          hfeed ▸ hplace
        rw [hposition, hnone]
        exact ⟨Nat.zero_le 3, rfl⟩

/-- After the first bytes of a stream, the position and the pending bytes count them. -/
theorem after_position (order : FrameOrder) (bytes : List UInt8) :
    (after order bytes).1.pending.length ≤ 3 ∧
      (after order bytes).1.position + (after order bytes).1.pending.length = bytes.length := by
  induction bytes using List.reverseRecOn with
  | nil => exact ⟨Nat.zero_le 3, rfl⟩
  | append_singleton bytes byte ih =>
      obtain ⟨hpending, hposition⟩ := feed_position order ih.1 byte
      rw [after_append, List.length_append, List.length_singleton, ← ih.2]
      exact ⟨hpending, hposition⟩

end Decoder

end ConfigStream
