import ConfigStream.Proofs.Decoder.Packets
import ConfigStream.Proofs.Stream.Sync

/-!
# A word in the payload of a packet

A decoder that reads packets and is about to take a payload word stands inside one of them: the
bytes before it are whole packets, a header and the payload words before that word
(`Decoder.Reads.inPacket`), and what has been told by then is known from these
(`Decoder.Reads.packetPart`).
-/

namespace ConfigStream

/-- What is left after a word is what is left of bytes that it does not end in. -/
theorem Word.toBytes_append_eq {word : UInt32} {rest front back : List UInt8}
    (h : toBytes word ++ rest = front ++ back) (hlength : 4 ≤ front.length) :
    ∃ later, front = toBytes word ++ later ∧ rest = later ++ back := by
  rcases List.append_eq_append_iff.1 h with ⟨later, hfront, hrest⟩ | ⟨missing, hword, hback⟩
  · exact ⟨later, hfront, hrest⟩
  · have hall := congrArg List.length hword
    rw [length_toBytes, List.length_append] at hall
    obtain rfl := List.eq_nil_of_length_eq_zero (show missing.length = 0 by omega)
    rw [List.append_nil] at hword
    exact ⟨[], by rw [hword, List.append_nil], hback.symm⟩

/-- Bytes at the front of words are some of the words and less than another word. -/
theorem Word.flatMap_toBytes_eq_append {words : List UInt32} {front back : List UInt8}
    (h : words.flatMap toBytes = front ++ back) :
    ∃ before after tail, words = before ++ after ∧ front = before.flatMap toBytes ++ tail ∧
      after.flatMap toBytes = tail ++ back ∧ tail.length < 4 := by
  induction words generalizing front with
  | nil =>
      obtain ⟨rfl, rfl⟩ := List.append_eq_nil_iff.1 h.symm
      exact ⟨[], [], [], rfl, rfl, rfl, by decide⟩
  | cons word words ih =>
      by_cases hlength : front.length < 4
      · exact ⟨[], word :: words, front, rfl, rfl, h, hlength⟩
      · rw [List.flatMap_cons] at h
        obtain ⟨later, rfl, hrest⟩ := toBytes_append_eq h (Nat.le_of_not_lt hlength)
        obtain ⟨before, after, tail, rfl, rfl, hafter, htail⟩ := ih hrest
        exact ⟨word :: before, after, tail, rfl, (List.append_assoc ..).symm, hafter, htail⟩

namespace Boundary

/-- A boundary after the header of a packet. -/
def begun (boundary : Boundary) : Packet → Boundary
  | .write register _ => { boundary with register }
  | .bare .. | .long .. => boundary

/-- What the header of a packet tells. -/
def opening (boundary : Boundary) : Packet → List Event
  | .bare opcode register _ => [.diagnostic (if opcode = .nop then .nop else .read register)]
  | .write register words =>
    .diagnostic (.write register words.length) ::
      if register = .far ∧ words.length ≠ 1 then [.diagnostic (.moveLength words.length)] else []
  | .long _ words => [.diagnostic (.continued boundary.register words.length)]

end Boundary

namespace Decoder

variable {order : FrameOrder}

/-- Where a decoder is that has read a packet up to a word of its payload. -/
theorem Reads.packetPart {packet : Packet} (h : packet.Fits) {before after : List UInt32}
    {word : UInt32} (hpayload : packet.payload = before ++ word :: after) (boundary : Boundary)
    (position : Nat) :
    ∃ long last, Reads order (boundary.decoder position)
      (Word.toBytes packet.header.encode ++ before.flatMap Word.toBytes)
      (boundary.opening packet ++ payloadEvents order (boundary.begun packet).register long
        (boundary.begun packet).cursor before)
      { ((boundary.begun packet).paid order long before).decoder
          (position + 4 + 4 * before.length) with
        phase := .payload long after.length last } := by
  have hheader {last : Decoder} {events : List Event} :=
    @Reads.header order packet.header.encode boundary position last events
  rw [headerWord, if_neg h.hasHeader.ne_dummyWord, h.hasHeader.decode_eq] at hheader
  have hwords : (before ++ word :: after).length = before.length + after.length + 1 := by
    rw [List.length_append, List.length_cons]
    rfl
  cases packet with
  | bare => simp [Packet.payload] at hpayload
  | write register words =>
      obtain rfl : words = _ := hpayload
      obtain ⟨last, hpart⟩ := Reads.payloadPart order
        { boundary with register } (position + 4) false before after.length none
      refine ⟨false, last, .trans (hheader ?_) hpart⟩
      simp only [Packet.header, Header.write, Boundary.opening, hwords, beginPacket]
      rw [List.append_nil]
      rfl
  | long opcode words =>
      obtain rfl : words = _ := hpayload
      obtain ⟨last, hpart⟩ := Reads.payloadPart order boundary (position + 4) true before
        after.length none
      refine ⟨true, last, .trans (hheader ?_) hpart⟩
      simp only [Packet.header, Boundary.opening, hwords, beginPacket]
      rfl

/-- Bytes in the middle of a packet at which a decoder waits for a whole word of payload are the
header and the first words of the payload. -/
theorem Reads.inPayload {packet : Packet} (h : packet.Fits) {front back : List UInt8}
    (hbytes : packet.bytes = front ++ back) {boundary : Boundary} {position : Nat}
    {events : List Event} {last : Decoder}
    (hreads : Reads order (boundary.decoder position) front events last)
    (hpending : last.pending = []) (hphase : last.phase ≠ .header) :
    ∃ before word after, packet.payload = before ++ word :: after ∧
      front = Word.toBytes packet.header.encode ++ before.flatMap Word.toBytes ∧
      back = (word :: after).flatMap Word.toBytes := by
  have hheader : 4 ≤ front.length := by
    by_contra hshort
    obtain ⟨-, rfl⟩ := hreads.unique (.pending (show 0 + front.length ≤ 3 by omega))
    exact hphase rfl
  obtain ⟨part, rfl, hpart⟩ := Word.toBytes_append_eq hbytes hheader
  obtain ⟨before, after, tail, hpayload, rfl, hafter, htail⟩ :=
    Word.flatMap_toBytes_eq_append hpart
  cases after with
  | nil =>
      -- The front is all of the packet, after which a header is due.
      obtain ⟨rfl, rfl⟩ := List.append_eq_nil_iff.1 hafter.symm
      rw [List.append_nil] at hbytes
      rw [← hbytes] at hreads
      obtain ⟨-, rfl⟩ := hreads.unique (.packet h boundary position)
      exact absurd rfl hphase
  | cons word after =>
      -- A part of a word would still be pending.
      obtain ⟨long, previous, hwords⟩ := Reads.packetPart h hpayload boundary position
      rw [← List.append_assoc] at hreads
      obtain ⟨-, rfl⟩ := hreads.unique (hwords.trans (.pending (show 0 + tail.length ≤ 3 by omega)))
      obtain rfl : tail = [] := hpending
      rw [List.append_nil]
      exact ⟨before, word, after, hpayload, rfl, hafter.symm⟩

/-- A decoder that reads packets and waits for a word of payload stands inside a packet. -/
theorem Reads.inPacket {packets : List Packet} (hfits : ∀ packet ∈ packets, packet.Fits)
    {front back : List UInt8} {word : UInt32}
    (hbytes : packets.flatMap Packet.bytes = front ++ (Word.toBytes word ++ back))
    {boundary : Boundary} {position : Nat} {events : List Event} {last : Decoder}
    (hreads : Reads order (boundary.decoder position) front events last)
    (hpending : last.pending = []) (hphase : last.phase ≠ .header) :
    ∃ early packet late before after, packets = early ++ packet :: late ∧
      packet.payload = before ++ word :: after ∧
      front = early.flatMap Packet.bytes ++
        (Word.toBytes packet.header.encode ++ before.flatMap Word.toBytes) ∧
      back = after.flatMap Word.toBytes ++ late.flatMap Packet.bytes := by
  induction packets generalizing front boundary position events with
  | nil => simp [Word.toBytes] at hbytes
  | cons packet packets ih =>
      have hpacket := hfits packet List.mem_cons_self
      rw [List.flatMap_cons] at hbytes
      rcases List.append_eq_append_iff.1 hbytes with ⟨later, rfl, hrest⟩ | ⟨part, hpart, hback⟩
      · obtain ⟨more, -, hlater⟩ := hreads.rest (.packet hpacket boundary position)
        obtain ⟨early, other, late, before, after, rfl, hpayload, rfl, rfl⟩ :=
          ih (fun other hother => hfits other (List.mem_cons_of_mem _ hother)) hrest hlater
        exact ⟨packet :: early, other, late, before, after, rfl, hpayload,
          (List.append_assoc ..).symm, rfl⟩
      · obtain ⟨before, next, after, hpayload, rfl, rfl⟩ :=
          hreads.inPayload hpacket hpart hpending hphase
        rw [List.flatMap_cons, List.append_assoc] at hback
        obtain ⟨hword, rfl⟩ := List.append_inj hback rfl
        obtain rfl := Word.toBytes_inj.1 hword
        exact ⟨[], packet, packets, before, after, rfl, hpayload, rfl, rfl⟩

end Decoder

end ConfigStream
