import ConfigStream.Bitstream.Basic
import ConfigStream.Proofs.Decoder.Reading
import ConfigStream.Proofs.Encoding.Calls
import ConfigStream.Proofs.Encoding.Header

/-!
# Decoding an encoded stream

A memory with a frame is encoded whenever the header strings fit (`encode_of_fits`). The stream is
the header and then the packets of `Encoding.body`, and a decoder that has found the sync word of
the header hears exactly these (`decode_encode`), whatever order it follows.
-/

namespace ConfigStream

open Encoding

variable {profile : Profile} {memory : FrameMemory} {order : FrameOrder} {bytes : List UInt8}

/-- The packets of the calls after the header, as a decoder hears them. -/
def Encoding.bodyPackets (profile : Profile) (memory : FrameMemory) (order decodeOrder : FrameOrder)
    (first : UInt32) : List Packet :=
  Boundary.atSync.packets decodeOrder (body profile memory order first)

/-- The body of a stream is written after its header. Its packets are the same for every decoder,
and fit. -/
theorem run_body (profile : Profile) (memory : FrameMemory) (order : FrameOrder) (first : UInt32) :
    ∃ last,
      (({} : Writer).raw (headerBytes profile)).run (body profile memory order first) = .ok last ∧
      ∀ decodeOrder : FrameOrder,
        last.bytes.toList = headerBytes profile ++
          (bodyPackets profile memory order decodeOrder first).flatMap Packet.bytes ∧
        ∀ packet ∈ bodyPackets profile memory order decodeOrder first, packet.Fits := by
  have hstep : InStep (({} : Writer).raw (headerBytes profile)) true Boundary.atSync :=
    ⟨rfl, fun _ => rfl⟩
  have hheader : (({} : Writer).raw (headerBytes profile)).bytes.toList = headerBytes profile := by
    simp [Writer.raw]
  have hrun (decodeOrder : FrameOrder) :=
    hstep.writes (body_disciplined profile memory order first true) decodeOrder
  obtain ⟨last, hlast, -⟩ := hrun order
  refine ⟨last, hlast, fun decodeOrder => ?_⟩
  -- The run does not depend on the decoder's order, so it has left the same bytes.
  obtain ⟨other, hother, hbytes, -, hfits⟩ := hrun decodeOrder
  obtain rfl : last = other := Except.ok.inj (hlast.symm.trans hother)
  rw [hheader] at hbytes
  exact ⟨hbytes, hfits⟩

/-- A stream that was encoded is its header and the packets of its body. -/
theorem encode_packets (h : encode profile memory order = .ok bytes) :
    ∃ first, memory.first? = some first ∧ profile.TextsFit ∧
      ∀ decodeOrder : FrameOrder,
        bytes = headerBytes profile ++
          (bodyPackets profile memory order decodeOrder first).flatMap Packet.bytes ∧
        ∀ packet ∈ bodyPackets profile memory order decodeOrder first, packet.Fits := by
  unfold encode at h
  cases hfirst : memory.first? with
  | none => simp [hfirst] at h
  | some first =>
      simp only [hfirst, script_eq, Writer.run_append] at h
      cases hheader : ({} : Writer).run (header profile) with
      | error fault => simp [hheader, Except.bind] at h
      | ok writer =>
          obtain ⟨hfit, rfl⟩ := (run_header {} writer profile).1 hheader
          obtain ⟨last, hlast, hbytes⟩ := run_body profile memory order first
          simp only [hheader, Except.bind, hlast, Except.ok.injEq] at h
          exact ⟨first, rfl, hfit, h ▸ hbytes⟩

/-- A stream that was encoded is its header and what a decoder reads as the calls of its body. -/
theorem encode_eq (h : encode profile memory order = .ok bytes) :
    ∃ first rest, memory.first? = some first ∧ profile.TextsFit ∧
      bytes = headerBytes profile ++ rest ∧
      ∀ (decodeOrder : FrameOrder) (position : Nat),
        Decoder.Reads decodeOrder (Boundary.atSync.decoder position) rest
          (Boundary.atSync.hearAll decodeOrder (body profile memory order first)).2
          ((Boundary.atSync.hearAll decodeOrder (body profile memory order first)).1.decoder
            (position + rest.length)) := by
  obtain ⟨first, hfirst, hfit, hbytes⟩ := encode_packets h
  refine ⟨first, _, hfirst, hfit, (hbytes order).1, fun decodeOrder position => ?_⟩
  -- Whatever order a decoder follows, it reads the packets of the same bytes.
  have hsame := List.append_cancel_left ((hbytes order).1.symm.trans (hbytes decodeOrder).1)
  rw [hsame, ← Boundary.takeAll_packets]
  exact Decoder.Reads.packets (hbytes decodeOrder).2 Boundary.atSync position

/-- The packets of a body begin with one that does nothing. -/
theorem hearAll_body_cons (profile : Profile) (memory : FrameMemory)
    (order decodeOrder : FrameOrder) (first : UInt32) :
    ∃ events, (Boundary.atSync.hearAll decodeOrder (body profile memory order first)).2 =
      .diagnostic .nop :: events :=
  ⟨_, rfl⟩

/-- A stream goes on after its header. -/
theorem encode_length (h : encode profile memory order = .ok bytes) :
    syncOffset profile + 4 < bytes.length := by
  obtain ⟨first, rest, -, -, rfl, hreads⟩ := encode_eq h
  cases rest with
  | nil =>
      -- From no bytes a decoder could not hear the first packet.
      have hnothing := congrArg Prod.snd (hreads order 0 #[])
      obtain ⟨events, hevents⟩ := hearAll_body_cons profile memory order order first
      rw [hevents] at hnothing
      simp [Decoder.feedAll] at hnothing
  | cons byte rest =>
      rw [List.length_append, length_headerBytes, List.length_cons]
      omega

/-- A memory with a frame is encoded if the header strings fit. -/
theorem encode_of_fits {first : UInt32} (hfirst : memory.first? = some first)
    (hfit : profile.TextsFit) : ∃ bytes, encode profile memory order = .ok bytes := by
  obtain ⟨last, hlast, -⟩ := run_body profile memory order first
  have hheader := (run_header {} (({} : Writer).raw (headerBytes profile)) profile).2 ⟨hfit, rfl⟩
  refine ⟨last.bytes.toList, ?_⟩
  simp only [encode, hfirst, script_eq, Writer.run_append, hheader, Except.bind, hlast]

/-- A decoder reads a clear header up to its sync word. -/
theorem Decoder.Reads.headerBytes (hclear : HeaderIsClear profile) (decodeOrder : FrameOrder) :
    Decoder.Reads decodeOrder .start (Encoding.headerBytes profile)
      [.diagnostic (.syncAt (syncOffset profile))]
      (Boundary.atSync.decoder (syncOffset profile + 4)) := by
  have hfound : findSync Decoder.start.position
      (Decoder.start.pending ++ (Encoding.headerBytes profile ++ [])) =
        some (syncOffset profile, []) := findSync_header hclear []
  obtain ⟨taken, htaken, hsync⟩ :=
    @Decoder.Reads.search decodeOrder .start _ _ _ rfl (Nat.zero_le 3) hfound
  rw [List.append_nil, List.append_nil] at htaken
  exact htaken ▸ hsync

/-- Packets after a clear header are decoded one after another. -/
theorem decode_packets (hclear : HeaderIsClear profile) (decodeOrder : FrameOrder)
    {packets : List Packet} (hfits : ∀ packet ∈ packets, packet.Fits) :
    decode decodeOrder (headerBytes profile ++ packets.flatMap Packet.bytes) =
      .ok ⟨.diagnostic (.syncAt (syncOffset profile)) ::
        (Boundary.atSync.takeAll decodeOrder packets).2⟩ := by
  have hwhole := (Decoder.Reads.headerBytes hclear decodeOrder).trans
    (.packets hfits Boundary.atSync (syncOffset profile + 4))
  have hdecode : decode decodeOrder _ = .ok ⟨_ ++ []⟩ := hwhole.decode_eq
  rwa [List.append_nil] at hdecode

/-- A decoder that is given an encoded stream with a clear header finds the sync word of the header
and hears the calls of the body. -/
theorem decode_encode (h : encode profile memory order = .ok bytes)
    (hclear : HeaderIsClear profile) :
    ∃ first, memory.first? = some first ∧ ∀ decodeOrder,
      decode decodeOrder bytes =
        .ok ⟨.diagnostic (.syncAt (syncOffset profile)) ::
          (Boundary.atSync.hearAll decodeOrder (body profile memory order first)).2⟩ := by
  obtain ⟨first, hfirst, -, hpackets⟩ := encode_packets h
  refine ⟨first, hfirst, fun decodeOrder => ?_⟩
  obtain ⟨hbytes, hfits⟩ := hpackets decodeOrder
  rw [hbytes, decode_packets hclear decodeOrder hfits, bodyPackets, Boundary.takeAll_packets]

/-! ## Bitstreams -/

variable {bitstream : Bitstream}

/-- What a bitstream of a memory is made of. -/
theorem Bitstream.ofMemory_eq_ok (h : Bitstream.ofMemory profile memory order = .ok bitstream) :
    encode profile memory order = .ok bitstream.data ∧
      bitstream.metadata.frameCount = memory.size ∧
      bitstream.metadata.paddingFrames = memory.addresses.countP order.isRowEnd := by
  unfold ofMemory at h
  cases hencode : encode profile memory order with
  | error fault => simp [hencode] at h
  | ok data =>
      simp only [hencode, Except.ok.injEq] at h
      subst h
      exact ⟨rfl, rfl, rfl⟩

/-- A bitstream is made whenever its stream can be encoded. -/
theorem Bitstream.ofMemory_of_encode {bytes : List UInt8}
    (h : encode profile memory order = .ok bytes) :
    Bitstream.ofMemory profile memory order =
      .ok ⟨bytes, profile.part,
        ⟨memory.size, memory.addresses.countP order.isRowEnd, bytes.length⟩⟩ := by
  rw [ofMemory, h]

end ConfigStream
