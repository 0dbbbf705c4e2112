import ConfigStream.Proofs.Encoding.Placement
import ConfigStream.Proofs.Frame.Memory
import Mathlib.Data.List.Chain

/-!
# Round trips

A decoder finds the frames of a stream at their own addresses if and only if each continues the one
before it (`decode_encode_bits_iff`). An order that leads through the addresses of a memory sees to
that, so what is encoded with such an order comes back with it (`decode_encode_bits`).
-/

namespace ConfigStream

/-- The order leads from each address to the one after it. What follows the last is left open. -/
def FrameOrder.LeadsThrough (order : FrameOrder) (addresses : List UInt32) : Prop :=
  addresses.IsChain fun address next => order.next? address = some next

instance (order : FrameOrder) (addresses : List UInt32) :
    Decidable (order.LeadsThrough addresses) :=
  inferInstanceAs
    (Decidable (addresses.IsChain fun address next => order.next? address = some next))

namespace Encoding

/-- The data bits of frames at their own addresses. -/
def ownBits (entries : List (UInt32 × Frame)) : List BitAddress :=
  entries.flatMap fun (address, frame) => frame.dataBits.map fun (word, bit) => ⟨address, word, bit⟩

/-- A frame is found where the one before it has led, or it has nothing to find. -/
def Continues (order decodeOrder : FrameOrder) (entry next : UInt32 × Frame) : Prop :=
  landing order decodeOrder entry.1 = next.1 ∨ next.2.dataBits = []

/-- Frames are found at their addresses if the first is, or has no data, and the others are found
after it. -/
theorem placedBits_cons_eq_iff {order decodeOrder : FrameOrder} {place : UInt32}
    {entry : UInt32 × Frame} {entries : List (UInt32 × Frame)} :
    placedBits order decodeOrder place (entry :: entries) = ownBits (entry :: entries) ↔
      (place = entry.1 ∨ entry.2.dataBits = []) ∧
        placedBits order decodeOrder (landing order decodeOrder entry.1) entries =
          ownBits entries := by
  obtain ⟨address, frame⟩ := entry
  have hfirst : (frame.dataBits.map fun (word, bit) => (⟨place, word, bit⟩ : BitAddress)) =
      (frame.dataBits.map fun (word, bit) => ⟨address, word, bit⟩) ↔
        place = address ∨ frame.dataBits = [] := by
    constructor
    · intro h
      cases hdata : frame.dataBits with
      | nil => exact .inr rfl
      | cons bit bits =>
          rw [hdata] at h
          exact .inl (BitAddress.mk.inj (List.cons.inj h).1).1
    · rintro (rfl | hdata)
      · rfl
      · rw [hdata]
        rfl
  rw [placedBits, ownBits, List.flatMap_cons]
  constructor
  · intro h
    obtain ⟨hhead, htail⟩ := List.append_inj h (by simp)
    exact ⟨hfirst.1 hhead, htail⟩
  · rintro ⟨hhead, htail⟩
    rw [htail]
    exact congrArg (· ++ _) (hfirst.2 hhead)

/-- Frames of which the first is found at its address are all found at theirs if and only if each
continues the one before it. -/
theorem placedBits_eq_iff {order decodeOrder : FrameOrder} {entry : UInt32 × Frame}
    {entries : List (UInt32 × Frame)} :
    placedBits order decodeOrder entry.1 (entry :: entries) = ownBits (entry :: entries) ↔
      (entry :: entries).IsChain (Continues order decodeOrder) := by
  induction entries generalizing entry with
  | nil => simp [placedBits, ownBits]
  | cons next entries ih =>
      have hnext : placedBits order decodeOrder next.1 (next :: entries) =
          ownBits (next :: entries) ↔ _ := placedBits_cons_eq_iff
      rw [placedBits_cons_eq_iff, placedBits_cons_eq_iff, List.isChain_cons_cons, ← ih, hnext]
      simp [Continues]

/-- A bit without its frame. -/
def placeInFrame (bit : BitAddress) : Nat × Nat := (bit.word, bit.bit)

/-- An order changes the frames that bits are found in, and not their places in these. -/
theorem map_placedBits (order decodeOrder : FrameOrder) (place : UInt32)
    (entries : List (UInt32 × Frame)) :
    (placedBits order decodeOrder place entries).map placeInFrame =
      (ownBits entries).map placeInFrame := by
  induction entries generalizing place with
  | nil => rfl
  | cons entry entries ih =>
      rw [placedBits, ownBits, List.flatMap_cons, List.map_append, List.map_append, ih,
        List.map_map, List.map_map]
      rfl

/-- In an order that leads from an address to another, frames are found there, whether a row ends
or not. -/
theorem landing_self {order : FrameOrder} {address next : UInt32}
    (h : order.next? address = some next) : landing order order address = next := by
  simp [landing, FrameCursor.after, h]

end Encoding

open Encoding

variable {profile : Profile} {memory : FrameMemory} {order : FrameOrder} {bytes : List UInt8}

/-- The first frame of a memory has the first address. -/
theorem FrameMemory.toList_of_first? {first : UInt32} (h : memory.first? = some first) :
    ∃ frame entries, memory.toList = (first, frame) :: entries := by
  rw [first?, ← memory.map_fst_toList] at h
  cases hentries : memory.toList with
  | nil => simp [hentries] at h
  | cons entry entries =>
      obtain rfl : entry.1 = first := by simpa [hentries] using h
      exact ⟨entry.2, entries, rfl⟩

/-- Whatever order a decoder follows, every check of an encoded stream passes, and the data bits are
in their places in the frames. They are in the frames of the memory if and only if each frame
continues the one before it. -/
theorem decode_encode_bits_iff (h : encode profile memory order = .ok bytes)
    (hclear : HeaderIsClear profile) (decodeOrder : FrameOrder) :
    ∃ report, decode decodeOrder bytes = .ok report ∧ report.isClean = true ∧
      report.bits.map placeInFrame = memory.dataBits.map placeInFrame ∧
      (report.bits = memory.dataBits ↔ memory.toList.IsChain (Continues order decodeOrder)) := by
  obtain ⟨first, hfirst, hdecode⟩ := decode_encode_placed h hclear
  obtain ⟨report, hreport, hbits, -, hclean⟩ := hdecode decodeOrder
  obtain ⟨frame, entries, hentries⟩ := FrameMemory.toList_of_first? hfirst
  refine ⟨report, hreport, hclean, ?_, ?_⟩
  · rw [hbits]
    exact map_placedBits order decodeOrder first memory.toList
  · have hown : memory.dataBits = ownBits memory.toList := rfl
    rw [hbits, hown, hentries]
    exact @placedBits_eq_iff order decodeOrder (first, frame) entries

/-- What is encoded comes back. A memory that is encoded and decoded with an order that leads
through its addresses is reported with exactly its data bits, in their order and in their frames,
and every check passes. -/
theorem decode_encode_bits (h : encode profile memory order = .ok bytes)
    (hclear : HeaderIsClear profile) (hleads : order.LeadsThrough memory.addresses) :
    ∃ report, decode order bytes = .ok report ∧ report.bits = memory.dataBits ∧
      report.frames = memory.dataFrames ∧ report.isClean = true := by
  obtain ⟨report, hreport, hclean, -, hbits⟩ := decode_encode_bits_iff h hclear order
  rw [FrameOrder.LeadsThrough, ← memory.map_fst_toList, List.isChain_map] at hleads
  have hown : report.bits = memory.dataBits :=
    hbits.2 (hleads.imp fun _ _ hnext => .inl (landing_self hnext))
  refine ⟨report, hreport, hown, ?_, hclean⟩
  rw [Report.frames, hown, FrameMemory.ofBits_dataBits]

/-- A memory of two frames, with a bit in the reserved region of the first and a data bit in each,
comes back with the data bits. -/
theorem decode_encode_bits_two :
    let memory := FrameMemory.ofBits [⟨0, 45, 3⟩, ⟨0, 3, 9⟩, ⟨2, 92, 31⟩]
    let order := FrameOrder.ofAddresses [0, 2]
    ∃ bytes, encode {} memory order = .ok bytes ∧ HeaderIsClear {} ∧
      order.LeadsThrough memory.addresses ∧
      ∃ report, decode order bytes = .ok report ∧ report.bits = [⟨0, 3, 9⟩, ⟨2, 92, 31⟩] ∧
        report.frames = memory.dataFrames ∧ report.isClean = true := by
  intro memory order
  have hfirst : memory.first? = some 0 := by decide +kernel
  have hleads : order.LeadsThrough memory.addresses := by decide +kernel
  have hbits : memory.dataBits = [⟨0, 3, 9⟩, ⟨2, 92, 31⟩] := by decide +kernel
  obtain ⟨bytes, hbytes⟩ := encode_of_fits hfirst textsFit_default
  refine ⟨bytes, hbytes, headerIsClear_default, hleads, ?_⟩
  rw [← hbits]
  exact decode_encode_bits hbytes headerIsClear_default hleads

end ConfigStream
