import ConfigStream.Proofs.Encoding.Groups
import ConfigStream.Proofs.Encoding.Stream

/-!
# Where encoded frames are heard

A stream says where its first frame goes and where each row begins. All other places follow from the
order of the decoder, so a frame may be told of at another address than its own. `placedBits` are
the data bits of the frames of a stream at the places where a decoder finds them, and
`placedChecks` the checks of their syndromes, with those of the frames of zeros at row ends.
-/

namespace ConfigStream

namespace Encoding

open Writer

variable {order decodeOrder : FrameOrder}

/-- The place where a decoder goes on after the packets of the frame at an address. -/
def landing (order decodeOrder : FrameOrder) (address : UInt32) : UInt32 :=
  if order.isRowEnd address then
    (order.next? address).getD (FrameCursor.after decodeOrder address)
  else FrameCursor.after decodeOrder address

/-- The data bits of frames, the first of which is told of the given place. -/
def placedBits (order decodeOrder : FrameOrder) (place : UInt32) :
    List (UInt32 × Frame) → List BitAddress
  | [] => []
  | (address, frame) :: entries =>
    (frame.dataBits.map fun (word, bit) => ⟨place, word, bit⟩) ++
      placedBits order decodeOrder (landing order decodeOrder address) entries

/-- The checks of the syndromes of frames, the first of which is told of the given place. -/
def placedChecks (order decodeOrder : FrameOrder) (place : UInt32) :
    List (UInt32 × Frame) → List (UInt32 × UInt64 × UInt64)
  | [] => []
  | (address, frame) :: entries =>
    (place, frame.syndrome, frame.syndrome) ::
      (if order.isRowEnd address then [(FrameCursor.after decodeOrder address, 0, 0)] else []) ++
      placedChecks order decodeOrder (landing order decodeOrder address) entries

/-! ## A frame -/

/-- The bits that the data bits of a frame are told as. -/
theorem filterMap_bit?_bitEvents (frame : Frame) (place : UInt32) :
    (frame.bitEvents place).filterMap Event.bit? =
      frame.dataBits.map fun (word, bit) => ⟨place, word, bit⟩ := by
  simp [Frame.bitEvents, List.filterMap_map, Function.comp_def, Event.bit?]

theorem filterMap_eccCheck?_bitEvents (frame : Frame) (place : UInt32) :
    (frame.bitEvents place).filterMap Event.eccCheck? = [] := by
  simp [Frame.bitEvents, List.filterMap_map, Function.comp_def, Event.eccCheck?]

/-- What a group of packets for a frame tells of bits and syndromes, and where it ends. -/
theorem hearAll_frameGroup (address : UInt32) (frame : Frame) (register : Register)
    (crc place : UInt32) :
    ∃ events,
      (⟨register, crc, .start place⟩ : Boundary).hearAll decodeOrder (frameGroup address frame) =
        (⟨.crc, 0, .start (FrameCursor.after decodeOrder address)⟩, events) ∧
      events.filterMap Event.bit? =
        (frame.dataBits.map fun (word, bit) => ⟨place, word, bit⟩) ∧
      events.filterMap Event.eccCheck? = [(place, frame.storedSyndrome, frame.syndrome)] := by
  obtain ⟨sum, hheard⟩ := Boundary.hearAll_group register crc place address frame
  refine ⟨_, hheard, ?_, ?_⟩
  · rw [List.cons_append, List.filterMap_cons_none rfl, List.filterMap_append,
      filterMap_bit?_bitEvents]
    exact List.append_nil _
  · rw [List.cons_append, List.filterMap_cons_none rfl, List.filterMap_append,
      filterMap_eccCheck?_bitEvents]
    rfl

/-- The packets between two rows tell nothing of bits and syndromes, and move to the next row. -/
theorem hearAll_nextRow (next : UInt32) (register : Register) (crc place : UInt32) :
    ∃ register' crc' events,
      (⟨register, crc, .start place⟩ : Boundary).hearAll decodeOrder
          [.command .wcfg, .nop, .register .far next] = (⟨register', crc', .start next⟩, events) ∧
      events.filterMap Event.bit? = [] ∧ events.filterMap Event.eccCheck? = [] := by
  obtain ⟨register', crc', hlast⟩ :=
    Boundary.hearAll_start (nextRow_framed next) decodeOrder register crc place
  exact ⟨register', crc', _, Prod.ext hlast rfl, Boundary.hearAll_silent (nextRow_framed next)
    (nextRow_plain next) decodeOrder register crc place⟩

/-- What the packets of a frame tell of bits and syndromes, and where they end. -/
theorem hearAll_frame (address : UInt32) (contents : Frame) (register : Register)
    (crc place : UInt32) :
    ∃ register' crc' events,
      (⟨register, crc, .start place⟩ : Boundary).hearAll decodeOrder
          (frame order address contents) =
        (⟨register', crc', .start (landing order decodeOrder address)⟩, events) ∧
      events.filterMap Event.bit? =
        (contents.dataBits.map fun (word, bit) => ⟨place, word, bit⟩) ∧
      events.filterMap Event.eccCheck? =
        (place, contents.syndrome, contents.syndrome) ::
          if order.isRowEnd address then [(FrameCursor.after decodeOrder address, 0, 0)]
          else [] := by
  obtain ⟨events, hheard, hbits, hchecks⟩ :=
    hearAll_frameGroup address contents.withSyndrome.1 register crc place
  rw [Frame.dataBits_withSyndrome] at hbits
  rw [Frame.storedSyndrome_withSyndrome, Frame.syndrome_withSyndrome] at hchecks
  by_cases hrow : order.isRowEnd address = true
  · -- The frame of zeros is heard where the order goes on after the address.
    obtain ⟨padding, hpadded, hnone, hzero⟩ :=
      hearAll_frameGroup address .empty .crc 0 (FrameCursor.after decodeOrder address)
    rw [Frame.dataBits_empty] at hnone
    rw [Frame.storedSyndrome_empty, Frame.syndrome_empty] at hzero
    rw [frame, if_pos hrow, if_pos hrow, rowEnd, landing, if_pos hrow, Boundary.hearAll_append,
      Boundary.hearAll_append, hheard, hpadded]
    cases hnext : order.next? address with
    | none =>
        refine ⟨.crc, 0, events ++ (padding ++ []), rfl, ?_, ?_⟩
        · simp [hbits, hnone]
        · simp [hchecks, hzero]
    | some next =>
        obtain ⟨register', crc', moved, hmoved, hmovedBits, hmovedChecks⟩ :=
          hearAll_nextRow next .crc 0 (FrameCursor.after decodeOrder address)
        refine ⟨register', crc', events ++ (padding ++ moved), ?_, ?_, ?_⟩
        · rw [hmoved]
          rfl
        · simp [hbits, hnone, hmovedBits]
        · simp [hchecks, hzero, hmovedChecks]
  · rw [frame, if_neg hrow, if_neg hrow, landing, if_neg hrow, List.append_nil]
    exact ⟨_, _, _, hheard, hbits, hchecks⟩

/-! ## All frames -/

/-- What the packets of all frames tell of bits and syndromes. -/
theorem hearAll_frames (order decodeOrder : FrameOrder) (entries : List (UInt32 × Frame))
    (register : Register) (crc place : UInt32) :
    ∃ register' crc' place' events,
      (⟨register, crc, .start place⟩ : Boundary).hearAll decodeOrder
          (entries.flatMap fun entry => frame order entry.1 entry.2) =
        (⟨register', crc', .start place'⟩, events) ∧
      events.filterMap Event.bit? = placedBits order decodeOrder place entries ∧
      events.filterMap Event.eccCheck? = placedChecks order decodeOrder place entries := by
  induction entries generalizing register crc place with
  | nil => exact ⟨register, crc, place, [], rfl, rfl, rfl⟩
  | cons entry entries ih =>
      obtain ⟨register', crc', events, hheard, hbits, hchecks⟩ :=
        hearAll_frame entry.1 entry.2 register crc place
      obtain ⟨register'', crc'', place'', later, hlater, hlaterBits, hlaterChecks⟩ :=
        ih register' crc' (landing order decodeOrder entry.1)
      refine ⟨register'', crc'', place'', events ++ later, ?_, ?_, ?_⟩
      · rw [List.flatMap_cons, Boundary.hearAll_append, hheard, hlater]
      · rw [List.filterMap_append, hbits, hlaterBits]
        rfl
      · rw [List.filterMap_append, hchecks, hlaterChecks]
        rfl

/-- What the body of a stream tells of bits and syndromes. -/
theorem hearAll_body (profile : Profile) (memory : FrameMemory) (order decodeOrder : FrameOrder)
    (first : UInt32) :
    (Boundary.atSync.hearAll decodeOrder (body profile memory order first)).2.filterMap
        Event.bit? = placedBits order decodeOrder first memory.toList ∧
      (Boundary.atSync.hearAll decodeOrder (body profile memory order first)).2.filterMap
        Event.eccCheck? = placedChecks order decodeOrder first memory.toList := by
  obtain ⟨hearlyBits, hearlyChecks⟩ := Boundary.hearAll_silent (preamble_framed profile first)
    (preamble_plain profile first) decodeOrder .crc 0 0
  obtain ⟨register, crc, hfirst⟩ := hearAll_preamble profile first decodeOrder
  obtain ⟨register', crc', place, events, hheard, hbits, hchecks⟩ :=
    hearAll_frames order decodeOrder memory.toList register crc first
  obtain ⟨hlateBits, hlateChecks⟩ := Boundary.hearAll_silent (epilogue_framed profile)
    (epilogue_plain profile) decodeOrder register' crc' place
  rw [body, Boundary.hearAll_append, Boundary.hearAll_append, hfirst, frames, hheard]
  constructor
  · rw [List.filterMap_append, List.filterMap_append, hlateBits, hbits, List.append_nil]
    exact congrArg (· ++ _) hearlyBits
  · rw [List.filterMap_append, List.filterMap_append, hlateChecks, hchecks, List.append_nil]
    exact congrArg (· ++ _) hearlyChecks

/-- The syndromes that a stream tells agree with its data. -/
theorem placedChecks_agree (order decodeOrder : FrameOrder) (entries : List (UInt32 × Frame))
    (place : UInt32) :
    ∀ check ∈ placedChecks order decodeOrder place entries, check.2.1 = check.2.2 := by
  induction entries generalizing place with
  | nil => exact fun _ hcheck => absurd hcheck List.not_mem_nil
  | cons entry entries ih =>
      intro check hcheck
      rcases List.mem_append.1 hcheck with hcheck | hcheck
      · rcases List.mem_cons.1 hcheck with rfl | hcheck
        · rfl
        · split at hcheck
          · rw [List.mem_singleton.1 hcheck]
          · cases hcheck
      · exact ih _ check hcheck

end Encoding

open Encoding

variable {profile : Profile} {memory : FrameMemory} {order : FrameOrder} {bytes : List UInt8}

/-- Whatever order a decoder follows, an encoded stream with a clear header is reported, with the
data bits and the syndromes at the places where that order puts them, and every check passes. -/
theorem decode_encode_placed (h : encode profile memory order = .ok bytes)
    (hclear : HeaderIsClear profile) :
    ∃ first, memory.first? = some first ∧ ∀ decodeOrder, ∃ report,
      decode decodeOrder bytes = .ok report ∧
      report.bits = placedBits order decodeOrder first memory.toList ∧
      report.eccChecks = placedChecks order decodeOrder first memory.toList ∧
      report.isClean = true := by
  obtain ⟨first, hfirst, hdecode⟩ := decode_encode h hclear
  refine ⟨first, hfirst, fun decodeOrder => ?_⟩
  have hreport := hdecode decodeOrder
  obtain ⟨hbits, hchecks⟩ := hearAll_body profile memory order decodeOrder first
  have hcrc : ∀ check ∈ (Boundary.atSync.hearAll decodeOrder
      (body profile memory order first)).2.filterMap Event.crcCheck?, check.1 = check.2 :=
    (Boundary.hearAll_crcChecks (body_framed profile memory order first) decodeOrder .crc 0 0).2
  generalize (Boundary.atSync.hearAll decodeOrder (body profile memory order first)).2 = events
    at hreport hbits hchecks hcrc
  refine ⟨_, hreport, hbits, hchecks, (Report.isClean_iff _).2 ⟨hcrc, ?_⟩⟩
  intro check hcheck
  have hplaced : check ∈ placedChecks order decodeOrder first memory.toList := hchecks ▸ hcheck
  exact placedChecks_agree order decodeOrder memory.toList first check hplaced

end ConfigStream
