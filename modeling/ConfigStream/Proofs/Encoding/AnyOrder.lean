import ConfigStream.Proofs.Encoding.RoundTrip

/-!
# Streams under any order

The events of an encoded stream do not depend on the order that a decoder follows, but for the
frames they name (`decode_ofMemory_anyOrder`): no order makes a decoder lose the packets, miss a
check or find one that fails.
-/

namespace ConfigStream

namespace Encoding

/-- The syndromes of the frames that a stream has: each frame with its syndrome in place, and a
frame of zeros after the last of a row. -/
def emittedSyndromes (order : FrameOrder) (entries : List (UInt32 × Frame)) : List UInt64 :=
  entries.flatMap fun (address, frame) =>
    frame.withSyndrome.1.syndrome :: if order.isRowEnd address then [0] else []

theorem emittedSyndromes_cons (order : FrameOrder) (address : UInt32) (frame : Frame)
    (entries : List (UInt32 × Frame)) :
    emittedSyndromes order ((address, frame) :: entries) =
      (frame.withSyndrome.1.syndrome :: if order.isRowEnd address then [0] else []) ++
        emittedSyndromes order entries := List.flatMap_cons

/-- The checks of a stream are those of the frames it has. -/
theorem map_placedChecks (order decodeOrder : FrameOrder) (place : UInt32)
    (entries : List (UInt32 × Frame)) :
    (placedChecks order decodeOrder place entries).map Prod.snd =
      (emittedSyndromes order entries).map fun syndrome => (syndrome, syndrome) := by
  induction entries generalizing place with
  | nil => rfl
  | cons entry entries ih =>
      obtain ⟨address, frame⟩ := entry
      rw [placedChecks, emittedSyndromes_cons, List.map_append, List.map_append, ih,
        Frame.syndrome_withSyndrome]
      split <;> rfl

/-- There is a frame for every address, and a frame of zeros for every row end. -/
theorem length_emittedSyndromes (order : FrameOrder) (entries : List (UInt32 × Frame)) :
    (emittedSyndromes order entries).length =
      entries.length + (entries.map Prod.fst).countP order.isRowEnd := by
  induction entries with
  | nil => rfl
  | cons entry entries ih =>
      obtain ⟨address, frame⟩ := entry
      rw [emittedSyndromes_cons, List.length_append, List.length_cons, ih, List.map_cons,
        List.countP_cons, List.length_cons]
      split
      · rw [List.length_singleton]
        omega
      · rw [List.length_nil]
        omega

end Encoding

open Encoding

variable {profile : Profile} {memory : FrameMemory} {order : FrameOrder} {bitstream : Bitstream}

/-- Whatever order a decoder follows, it reports an encoded stream with a clear header, and reports
the same events but for the frames they name. Nothing irregular is met. Each frame of the stream is
checked against its syndrome, the check sum is checked after each frame and twice at the end, all
with success, and the data bits are those of the memory in their words. -/
theorem decode_ofMemory_anyOrder (h : Bitstream.ofMemory profile memory order = .ok bitstream)
    (hclear : HeaderIsClear profile) :
    ∃ trace, ∀ decodeOrder, ∃ report, decode decodeOrder bitstream.data = .ok report ∧
      report.events.map Event.unplaced = trace ∧
      (∀ event ∈ report.events, event.isIrregular = false) ∧
      report.eccChecks.map Prod.snd =
        (emittedSyndromes order memory.toList).map (fun syndrome => (syndrome, syndrome)) ∧
      report.eccChecks.length =
        bitstream.metadata.frameCount + bitstream.metadata.paddingFrames ∧
      report.crcChecks.length =
        bitstream.metadata.frameCount + bitstream.metadata.paddingFrames + 2 ∧
      (∀ check ∈ report.crcChecks, check.1 = check.2) ∧
      report.bits.map placeInFrame = memory.dataBits.map placeInFrame := by
  obtain ⟨hencode, hframes, hpadding⟩ := Bitstream.ofMemory_eq_ok h
  obtain ⟨first, -, hdecode⟩ := decode_encode hencode hclear
  have hframed := body_framed profile memory order first
  -- The trace is what a decoder without an order hears.
  refine ⟨(.diagnostic (.syncAt (syncOffset profile)) ::
    (Boundary.atSync.hearAll .empty (body profile memory order first)).2).map Event.unplaced,
    fun decodeOrder => ?_⟩
  have hreport := hdecode decodeOrder
  have htrace := Boundary.hearAll_unplaced hframed decodeOrder .empty .crc .crc 0 0 0
  have hregular := Boundary.hearAll_regular hframed decodeOrder .crc 0 0
  obtain ⟨hcount, hagree⟩ := Boundary.hearAll_crcChecks hframed decodeOrder .crc 0 0
  obtain ⟨hbits, hchecks⟩ := hearAll_body profile memory order decodeOrder first
  have hsyndromes := map_placedChecks order decodeOrder first memory.toList
  rw [Boundary.atSync] at hreport hbits hchecks ⊢
  generalize (Boundary.hearAll decodeOrder ⟨.crc, 0, .start 0⟩
    (body profile memory order first)).2 = events at *
  rw [← hchecks] at hsyndromes
  refine ⟨_, hreport, ?_, ?_, hsyndromes, ?_, ?_, hagree, ?_⟩
  · rw [List.map_cons, List.map_cons, htrace]
  · intro event hevent
    rcases List.mem_cons.1 hevent with rfl | hevent
    · rfl
    · exact hregular event hevent
  · have hlength := congrArg List.length hsyndromes
    rw [List.length_map, List.length_map, length_emittedSyndromes, memory.map_fst_toList,
      memory.length_toList, ← hframes, ← hpadding] at hlength
    exact hlength
  · rw [hframes, hpadding, ← count_flush_body profile memory order first]
    exact hcount
  · have hown : memory.dataBits = ownBits memory.toList := rfl
    rw [hown, ← map_placedBits order decodeOrder first, ← hbits]
    rfl

/-- The stream of two frames that end a row each has four frames, and a decoder checks four
syndromes and six check sums whatever order it follows. -/
theorem decode_ofMemory_anyOrder_twoRows :
    let memory := FrameMemory.ofBits [⟨0, 3, 9⟩, ⟨0x40000, 92, 31⟩]
    let order := FrameOrder.ofAddresses [0, 0x40000]
    ∃ bitstream, Bitstream.ofMemory {} memory order = .ok bitstream ∧ HeaderIsClear {} ∧
      ∀ decodeOrder, ∃ report, decode decodeOrder bitstream.data = .ok report ∧
        report.eccChecks.length = 4 ∧ report.crcChecks.length = 6 ∧
        report.bits.map placeInFrame = [(3, 9), (92, 31)] := by
  intro memory order
  have hfirst : memory.first? = some 0 := by decide +kernel
  have hbits : memory.dataBits.map placeInFrame = [(3, 9), (92, 31)] := by decide +kernel
  have hsize : memory.size = 2 := by decide +kernel
  have hrows : memory.addresses.countP order.isRowEnd = 2 := by decide +kernel
  obtain ⟨bytes, hbytes⟩ := encode_of_fits hfirst textsFit_default
  have hmade := Bitstream.ofMemory_of_encode hbytes
  obtain ⟨trace, hdecode⟩ := decode_ofMemory_anyOrder hmade headerIsClear_default
  refine ⟨_, hmade, headerIsClear_default, fun decodeOrder => ?_⟩
  obtain ⟨report, hreport, -, -, -, hsyndromes, hsums, -, hplaces⟩ := hdecode decodeOrder
  refine ⟨report, hreport, ?_, ?_, hplaces.trans hbits⟩
  · rw [hsyndromes, hsize, hrows]
    rfl
  · rw [hsums, hsize, hrows]
    rfl

end ConfigStream
