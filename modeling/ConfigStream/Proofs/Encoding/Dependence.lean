import ConfigStream.Proofs.Encoding.Groups
import ConfigStream.Proofs.Encoding.Stream
import ConfigStream.Proofs.Frame.Completion

/-!
# What a stream depends on

The stream of a memory is made from its addresses and its data bits: what stands in the reserved
regions is replaced before a frame is written (`encode_congr`). Nothing of the two is lost. The
packets of a stream are known from its bytes, and the frames from the packets one after the other,
since the order alone says where a frame of zeros and a move to the next row come in between
(`Encoding.flatMap_emitted_inj`). So two memories have the same stream if and only if they have the
same addresses and the same data bits (`encode_eq_iff`).
-/

namespace ConfigStream

/-! ## Frames with their syndromes -/

namespace FrameMemory

/-- The memory with its syndrome in the reserved region of every frame. -/
def withSyndromes (memory : FrameMemory) : FrameMemory :=
  ⟨memory.frames.map fun _ frame => frame.withSyndrome.1⟩

theorem get?_withSyndromes (memory : FrameMemory) (address : UInt32) :
    memory.withSyndromes.get? address = (memory.get? address).map (·.withSyndrome.1) :=
  Std.ExtTreeMap.getElem?_map

theorem toList_withSyndromes (memory : FrameMemory) :
    memory.withSyndromes.toList =
      memory.toList.map fun entry => (entry.1, entry.2.withSyndrome.1) :=
  Std.ExtTreeMap.toList_map

theorem addresses_withSyndromes (memory : FrameMemory) :
    memory.withSyndromes.addresses = memory.addresses :=
  Std.ExtTreeMap.keys_map

theorem dataBits_withSyndromes (memory : FrameMemory) :
    memory.withSyndromes.dataBits = memory.dataBits := by
  rw [dataBits, toList_withSyndromes, List.flatMap_map]
  simp only [Frame.dataBits_withSyndrome]
  rfl

/-- Two memories have the same frames, and in these the same bits outside the reserved region. -/
structure SameData (first second : FrameMemory) : Prop where
  contains : ∀ address, first.contains address = second.contains address
  isSet : ∀ address, ∀ word < Frame.wordCount, ∀ bit < Word.width,
    Frame.isReserved word bit = false →
      first.isSet address (word * Word.width + bit) = second.isSet address (word * Word.width + bit)

variable {first second : FrameMemory}

theorem SameData.withSyndromes_eq (h : SameData first second) :
    first.withSyndromes = second.withSyndromes := by
  have hget (address : UInt32) :
      first.withSyndromes.get? address = second.withSyndromes.get? address := by
    have hexists := h.contains address
    have hset := h.isSet address
    rw [contains_eq, contains_eq] at hexists
    simp only [FrameMemory.isSet] at hset
    rw [get?_withSyndromes, get?_withSyndromes]
    cases hfirst : first.get? address with
    | none =>
        rw [hfirst] at hexists
        rw [Option.isSome_eq_false_iff.1 hexists.symm |> Option.isNone_iff_eq_none.1]
    | some frame =>
        rw [hfirst] at hexists hset
        obtain ⟨other, hsecond⟩ := Option.isSome_iff_exists.1 hexists.symm
        rw [hsecond] at hset ⊢
        exact congrArg (fun sealed : Frame × UInt64 => some sealed.1)
          (Frame.withSyndrome_congr hset)
  exact congrArg FrameMemory.mk (Std.ExtTreeMap.ext_getElem? fun {address} => hget address)

/-- Memories have the same frames with their syndromes if and only if they have the same addresses
and the same data bits. -/
theorem withSyndromes_eq_iff :
    first.withSyndromes = second.withSyndromes ↔
      first.addresses = second.addresses ∧ first.dataBits = second.dataBits := by
  constructor
  · intro h
    rw [← addresses_withSyndromes, ← dataBits_withSyndromes, h, addresses_withSyndromes,
      dataBits_withSyndromes]
    exact ⟨rfl, rfl⟩
  · rintro ⟨haddresses, hdata⟩
    apply SameData.withSyndromes_eq
    constructor
    · intro address
      rw [Bool.eq_iff_iff, ← mem_addresses, ← mem_addresses, haddresses]
    · intro address word hword bit hbit hreserved
      have hplace (memory : FrameMemory) :
          memory.isSet address (word * Word.width + bit) = true ↔
            ⟨address, word, bit⟩ ∈ memory.dataBits := by
        rw [mem_dataBits_iff_isSet]
        exact ⟨fun hset => ⟨hword, hbit, hreserved, hset⟩, fun hset => hset.2.2.2⟩
      rw [Bool.eq_iff_iff, hplace, hplace, hdata]

end FrameMemory

/-! ## Calls -/

namespace Encoding

open Writer

variable {order : FrameOrder}

/-- The calls for a frame with its syndrome. -/
def emitted (order : FrameOrder) (entry : UInt32 × Frame) : List Call :=
  frameGroup entry.1 entry.2 ++ if order.isRowEnd entry.1 then rowEnd order entry.1 else []

/-- The calls for a memory are those for its frames with their syndromes. -/
theorem frames_eq (memory : FrameMemory) (order : FrameOrder) :
    frames memory order = memory.withSyndromes.toList.flatMap (emitted order) := by
  rw [FrameMemory.toList_withSyndromes, List.flatMap_map]
  rfl

/-- The last call of the preamble moves to the first frame. It is the only one that depends on the
memory. -/
theorem preamble_eq (profile : Profile) (first : UInt32) :
    preamble profile first = (preamble profile 0).dropLast ++ [.register .far first] := rfl

variable {register : Register} {crc place : UInt32} {calls later : List Call}

/-- A group is known from its packets, and what follows it goes on from the same boundary. -/
theorem frameGroup_inj {address other : UInt32} {frame another : Frame}
    (h : (⟨register, crc, .start place⟩ : Boundary).packets order
        (frameGroup address frame ++ calls) =
      (⟨register, crc, .start place⟩ : Boundary).packets order
        (frameGroup other another ++ later)) :
    address = other ∧ frame = another ∧
      (⟨.crc, 0, .start (FrameCursor.after order address)⟩ : Boundary).packets order calls =
        (⟨.crc, 0, .start (FrameCursor.after order address)⟩ : Boundary).packets order later := by
  rw [Boundary.packets_frameGroup, Boundary.packets_frameGroup] at h
  simp only [groupPackets, List.cons_append, List.nil_append, List.cons.injEq,
    Packet.write.injEq, true_and, and_true] at h
  obtain ⟨hwords, rfl, -, hrest⟩ := h
  exact ⟨rfl, congrArg Frame.mk (Vector.toList_inj.1 hwords), hrest⟩

/-- What is written after the same calls is known from the packets. -/
theorem packets_append_cancel {boundary : Boundary} {same : List Call}
    (h : boundary.packets order (same ++ calls) = boundary.packets order (same ++ later)) :
    (boundary.hearAll order same).1.packets order calls =
      (boundary.hearAll order same).1.packets order later := by
  rw [Boundary.packets_append, Boundary.packets_append] at h
  exact List.append_cancel_left h

/-- A frame is known from the packets of its calls. What else is written for it depends on its
address alone. -/
theorem emitted_inj {entry other : UInt32 × Frame}
    (h : (⟨register, crc, .start place⟩ : Boundary).packets order (emitted order entry ++ calls) =
      (⟨register, crc, .start place⟩ : Boundary).packets order (emitted order other ++ later)) :
    entry = other ∧ ∃ register crc place,
      (⟨register, crc, .start place⟩ : Boundary).packets order calls =
        (⟨register, crc, .start place⟩ : Boundary).packets order later := by
  obtain ⟨address, frame⟩ := entry
  obtain ⟨otherAddress, another⟩ := other
  rw [emitted, emitted, List.append_assoc, List.append_assoc] at h
  obtain ⟨rfl, rfl, hafter⟩ := frameGroup_inj h
  refine ⟨rfl, ?_⟩
  have hframed : ∀ call ∈ (if order.isRowEnd address then rowEnd order address else []),
      call.IsFramed := by
    split
    · exact rowEnd_framed order address
    · simp
  obtain ⟨register, crc, hstart⟩ := Boundary.hearAll_start hframed order .crc 0
    (FrameCursor.after order address)
  have hrest := packets_append_cancel hafter
  rw [hstart] at hrest
  exact ⟨register, crc, _, hrest⟩

/-- The calls after the frames begin with no frame data. -/
theorem packets_epilogue_ne (profile : Profile) (entry : UInt32 × Frame) :
    (⟨register, crc, .start place⟩ : Boundary).packets order (epilogue profile) ≠
      (⟨register, crc, .start place⟩ : Boundary).packets order (emitted order entry ++ calls) := by
  intro h
  rw [emitted, List.append_assoc, Boundary.packets_frameGroup] at h
  obtain ⟨hfirst, -⟩ := List.cons.inj h
  obtain ⟨hregister, -⟩ := Packet.write.inj hfirst
  exact absurd hregister (by simp)

/-- The frames of a stream are known from the packets, one after the other. -/
theorem flatMap_emitted_inj {profile : Profile} {entries others : List (UInt32 × Frame)}
    (h : (⟨register, crc, .start place⟩ : Boundary).packets order
        (entries.flatMap (emitted order) ++ epilogue profile) =
      (⟨register, crc, .start place⟩ : Boundary).packets order
        (others.flatMap (emitted order) ++ epilogue profile)) :
    entries = others := by
  induction entries generalizing others register crc place with
  | nil =>
      cases others with
      | nil => rfl
      | cons other others =>
          rw [List.flatMap_cons, List.append_assoc] at h
          exact absurd h (packets_epilogue_ne profile other)
  | cons entry entries ih =>
      rw [List.flatMap_cons, List.append_assoc] at h
      cases others with
      | nil => exact absurd h.symm (packets_epilogue_ne profile entry)
      | cons other others =>
          rw [List.flatMap_cons, List.append_assoc] at h
          obtain ⟨rfl, register, crc, place, hrest⟩ := emitted_inj h
          rw [ih hrest]

/-- The frames of a stream are known from the packets after its header. -/
theorem bodyPackets_inj {profile : Profile} {memory other : FrameMemory} {first start : UInt32}
    (h : bodyPackets profile memory order order first =
      bodyPackets profile other order order start) :
    memory.withSyndromes = other.withSyndromes := by
  have hsplit (memory : FrameMemory) (first : UInt32) :
      body profile memory order first = (preamble profile 0).dropLast ++
        (.register .far first ::
          (memory.withSyndromes.toList.flatMap (emitted order) ++ epilogue profile)) := by
    rw [body, frames_eq, preamble_eq, List.append_assoc, List.append_assoc, List.singleton_append]
  have hframed : ∀ call ∈ (preamble profile 0).dropLast, call.IsFramed :=
    fun call hcall => preamble_framed profile 0 call (List.mem_of_mem_dropLast hcall)
  obtain ⟨register, crc, hstart⟩ := Boundary.hearAll_start hframed order .crc 0 0
  rw [bodyPackets, bodyPackets, hsplit, hsplit] at h
  have hrest := packets_append_cancel h
  rw [show (Boundary.atSync.hearAll order _).1 = _ from hstart] at hrest
  obtain ⟨hmove, hlater⟩ := List.cons.inj hrest
  obtain ⟨-, hsame⟩ := Packet.write.inj hmove
  obtain rfl := (List.cons.inj hsame).1
  have hfar : (Call.register .far first).IsFramed := by
    simp [Call.IsFramed, Register.far, Register.fdri, Register.crc]
  rw [Boundary.hear_framed hfar] at hlater
  have hentries := flatMap_emitted_inj hlater
  exact congrArg FrameMemory.mk (Std.ExtTreeMap.ext_toList (.of_eq hentries))

end Encoding

variable {profile : Profile} {memory first second : FrameMemory} {order : FrameOrder}
  {bytes others : List UInt8}

/-- A stream is made from the frames with their syndromes. -/
theorem encode_congr (h : first.withSyndromes = second.withSyndromes) (profile : Profile)
    (order : FrameOrder) : encode profile first order = encode profile second order := by
  have hfirst : first.first? = second.first? := by
    rw [FrameMemory.first?, FrameMemory.first?, (FrameMemory.withSyndromes_eq_iff.1 h).1]
  unfold encode
  simp only [Encoding.script_eq, Encoding.body, Encoding.frames_eq, h, hfirst]

/-- Two memories have the same stream if and only if they have the same addresses and the same data
bits. What stands in the reserved regions does not count: a memory that agrees with the first
outside these has the same stream. -/
theorem encode_eq_iff (hfirst : encode profile first order = .ok bytes)
    (hsecond : encode profile second order = .ok others) :
    (bytes = others ↔
      first.addresses = second.addresses ∧ first.dataBits = second.dataBits) ∧
    ∀ stale : FrameMemory, first.SameData stale → encode profile stale order = .ok bytes := by
  refine ⟨?_, fun stale hstale =>
    (encode_congr hstale.withSyndromes_eq profile order).symm.trans hfirst⟩
  rw [← FrameMemory.withSyndromes_eq_iff]
  constructor
  · rintro rfl
    obtain ⟨start, -, -, hpackets⟩ := encode_packets hfirst
    obtain ⟨other, -, -, hothers⟩ := encode_packets hsecond
    obtain ⟨hbytes, hfits⟩ := hpackets order
    obtain ⟨hsame, hfitsToo⟩ := hothers order
    exact Encoding.bodyPackets_inj (Packet.flatMap_bytes_inj hfits hfitsToo
      (List.append_cancel_left (hbytes.symm.trans hsame)))
  · intro h
    exact Except.ok.inj (hfirst.symm.trans ((encode_congr h profile order).trans hsecond))

/-- A set bit in the reserved region leaves the stream of a frame, another data bit changes it. -/
theorem encode_eq_iff_stale :
    let plain := FrameMemory.ofBits [⟨0x100, 0, 0⟩]
    let stale := FrameMemory.ofBits [⟨0x100, 0, 0⟩, ⟨0x100, 45, 3⟩]
    let moved := FrameMemory.ofBits [⟨0x100, 0, 1⟩]
    plain.SameData stale ∧ stale.isSet 0x100 (45 * Word.width + 3) = true ∧
      ∃ bytes others, encode {} plain .empty = .ok bytes ∧ encode {} stale .empty = .ok bytes ∧
        encode {} moved .empty = .ok others ∧ bytes ≠ others := by
  intro plain stale moved
  have hplain : ∀ bit ∈ [(⟨0x100, 0, 0⟩ : BitAddress)], bit.InFrame := by
    simp [BitAddress.InFrame, Frame.wordCount, Word.width]
  have hstale : ∀ bit ∈ [(⟨0x100, 0, 0⟩ : BitAddress), ⟨0x100, 45, 3⟩], bit.InFrame := by
    simp [BitAddress.InFrame, Frame.wordCount, Word.width]
  have hsame : plain.SameData stale := by
    constructor
    · intro address
      rw [Bool.eq_iff_iff, FrameMemory.contains_ofBits hplain, FrameMemory.contains_ofBits hstale]
      simp
    · intro address word hword bit hbit hreserved
      rw [Bool.eq_iff_iff, FrameMemory.isSet_ofBits_place hplain hbit,
        FrameMemory.isSet_ofBits_place hstale hbit]
      simp only [List.mem_cons, List.not_mem_nil, or_false, BitAddress.mk.injEq]
      constructor
      · exact .inl
      · rintro (hdata | ⟨-, rfl, rfl⟩)
        · exact hdata
        · cases hreserved
  obtain ⟨bytes, hbytes⟩ : ∃ bytes, encode {} plain .empty = .ok bytes :=
    encode_of_fits (show plain.first? = some 0x100 by decide +kernel) Encoding.textsFit_default
  obtain ⟨others, hothers⟩ : ∃ others, encode {} moved .empty = .ok others :=
    encode_of_fits (show moved.first? = some 0x100 by decide +kernel) Encoding.textsFit_default
  obtain ⟨hiff, hreserved⟩ := encode_eq_iff hbytes hothers
  refine ⟨hsame, by decide +kernel, bytes, others, hbytes, hreserved stale hsame, hothers,
    fun hbytesSame => ?_⟩
  have hdata : plain.dataBits ≠ moved.dataBits := by decide +kernel
  exact hdata (hiff.1 hbytesSame).2

end ConfigStream
