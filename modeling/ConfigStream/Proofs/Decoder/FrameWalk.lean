import ConfigStream.Proofs.Stream.Framed
import Mathlib.Logic.Function.Iterate

/-!
# Frame data in pieces

Frame data goes through the frames of an order word by word: word `k` is word `k % 93` of the frame
reached after `k / 93` full frames (`FrameCursor.walk`). It may be cut into packets anywhere, with
packets that carry no payload in between; a decoder tells the same bits and the same syndrome checks
and has the same check sum (`Decoder.Reads.frameData`).
-/

namespace ConfigStream

/-- A frame made of words of a list, as many full frames into it as given. Words that the list does
not have are zero. -/
def Frame.ofWords (words : List UInt32) (frames : Nat) : Frame :=
  ⟨Vector.ofFn fun word => words.getD (frames * wordCount + word) 0⟩

namespace Frame

/-- The first frame of a list is its first words. -/
theorem toList_ofWords_zero {group : List UInt32} (h : group.length = wordCount)
    (rest : List UInt32) : (ofWords (group ++ rest) 0).words.toList = group := by
  apply List.ext_getElem
  · simp [ofWords, h]
  · intro word hword hgroup
    simp [ofWords, List.getElem?_append_left hgroup, hgroup]

/-- The frames after the first are those of the words after it. -/
theorem ofWords_succ {group : List UInt32} (h : group.length = wordCount) (rest : List UInt32)
    (frames : Nat) : ofWords (group ++ rest) (frames + 1) = ofWords rest frames := by
  have hplace (word : Nat) :
      (group ++ rest).getD ((frames + 1) * wordCount + word) 0 =
        rest.getD (frames * wordCount + word) 0 := by
    have hlater : group.length ≤ (frames + 1) * wordCount + word := by
      rw [h, Nat.succ_mul]
      omega
    have hshift : (frames + 1) * wordCount + word - wordCount = frames * wordCount + word := by
      rw [Nat.succ_mul]
      omega
    rw [List.getD_eq_getElem?_getD, List.getD_eq_getElem?_getD, List.getElem?_append_right hlater,
      h, hshift]
  simp only [ofWords, hplace]

end Frame

namespace FrameCursor

variable {order : FrameOrder}

/-! ## Where words go -/

/-- The frame that is reached from an address after a number of full frames. -/
def nthAfter (order : FrameOrder) (address : UInt32) (frames : Nat) : UInt32 :=
  (after order)^[frames] address

/-- What the word at a place of frame data tells that begins at an address: its set data bits, and
after the last word of a frame the check of that frame. -/
def wordTells (order : FrameOrder) (address : UInt32) (words : List UInt32) (place : Nat)
    (word : UInt32) : List Event :=
  let frames := place / Frame.wordCount
  let inFrame := place % Frame.wordCount
  let bits := (Frame.dataBitsOf inFrame word).map fun bit =>
    Event.bit ⟨nthAfter order address frames, inFrame, bit⟩
  if inFrame + 1 = Frame.wordCount then
    bits ++ [.diagnostic (.eccCheck (nthAfter order address frames)
      (Frame.ofWords words frames).storedSyndrome (Frame.ofWords words frames).syndrome)]
  else bits

/-- What frame data tells that begins at an address. -/
def walk (order : FrameOrder) (address : UInt32) (words : List UInt32) : List Event :=
  words.zipIdx.flatMap fun (word, place) => wordTells order address words place word

/-- A word before the last of its frame tells its data bits. -/
theorem wordTells_within (address : UInt32) (words : List UInt32) {place : Nat}
    (h : place + 1 < Frame.wordCount) (word : UInt32) :
    wordTells order address words place word =
      (Frame.dataBitsOf place word).map fun bit => .bit ⟨address, place, bit⟩ := by
  have hplace : place < Frame.wordCount := Nat.lt_of_succ_lt h
  simp only [wordTells, Nat.div_eq_of_lt hplace, Nat.mod_eq_of_lt hplace, if_neg (Nat.ne_of_lt h)]
  rfl

/-- A word after the first frame tells what it tells of the words after that frame. -/
theorem wordTells_add (address : UInt32) {group : List UInt32}
    (h : group.length = Frame.wordCount) (rest : List UInt32) (place : Nat) (word : UInt32) :
    wordTells order address (group ++ rest) (place + Frame.wordCount) word =
      wordTells order (after order address) rest place word := by
  have hframes : (place + Frame.wordCount) / Frame.wordCount = place / Frame.wordCount + 1 :=
    Nat.add_div_right place (by decide)
  have hinFrame : (place + Frame.wordCount) % Frame.wordCount = place % Frame.wordCount :=
    Nat.add_mod_right place Frame.wordCount
  have haddress (frames : Nat) :
      nthAfter order address (frames + 1) = nthAfter order (after order address) frames :=
    Function.iterate_succ_apply (after order) frames address
  simp only [wordTells, hframes, hinFrame, haddress, Frame.ofWords_succ h]

/-- Words that do not fill a frame tell their data bits. -/
theorem walk_within (address : UInt32) {words : List UInt32}
    (h : words.length < Frame.wordCount) :
    walk order address words = dataEvents address 0 words := by
  apply List.flatMap_congr
  intro entry hentry
  have hplace := List.snd_lt_of_mem_zipIdx hentry
  exact wordTells_within address words (by omega) entry.1

/-- The last word of a frame tells its data bits and the check of the frame. -/
theorem wordTells_last (address : UInt32) {front : List UInt32} {last : UInt32}
    (h : (front ++ [last]).length = Frame.wordCount) (rest : List UInt32) :
    wordTells order address (front ++ [last] ++ rest) front.length last =
      ((Frame.dataBitsOf front.length last).map fun bit => .bit ⟨address, front.length, bit⟩) ++
        [.diagnostic (.eccCheck address (observedAfter 0 0 (front ++ [last]))
          (computedAfter 0 0 (front ++ [last])))] := by
  have hstored := observedAfter_words (Frame.ofWords (front ++ [last] ++ rest) 0)
  have hsyndrome := computedAfter_words (Frame.ofWords (front ++ [last] ++ rest) 0)
  rw [Frame.toList_ofWords_zero h rest] at hstored hsyndrome
  have hfront : front.length + 1 = Frame.wordCount := by simpa using h
  have hplace : front.length < Frame.wordCount := by omega
  simp only [wordTells, Nat.div_eq_of_lt hplace, Nat.mod_eq_of_lt hplace, if_pos hfront, hstored,
    hsyndrome]
  rfl

/-- The words of a full frame tell their data bits and then the check of the frame, whatever words
come after them. -/
theorem flatMap_wordTells_frame (address : UInt32) {group : List UInt32}
    (h : group.length = Frame.wordCount) (rest : List UInt32) :
    (group.zipIdx.flatMap fun (word, place) => wordTells order address (group ++ rest) place word) =
      dataEvents address 0 group ++
        [.diagnostic (.eccCheck address (observedAfter 0 0 group) (computedAfter 0 0 group))] := by
  -- Only the last word of the frame tells more than its bits.
  obtain ⟨front, last, rfl⟩ : ∃ front last, group = front ++ [last] :=
    ⟨_, _, (List.dropLast_append_getLast
      (List.ne_nil_of_length_pos (by rw [h]; decide))).symm⟩
  have hfront : front.length + 1 = Frame.wordCount := by simpa using h
  have hwithin : (front.zipIdx.flatMap fun (word, place) =>
      wordTells order address (front ++ [last] ++ rest) place word) =
        dataEvents address 0 front := by
    apply List.flatMap_congr
    intro entry hentry
    have hplace := List.snd_lt_of_mem_zipIdx hentry
    exact wordTells_within address _ (by omega) entry.1
  have hboth : dataEvents address 0 (front ++ [last]) = dataEvents address 0 front ++
      (Frame.dataBitsOf front.length last).map fun bit => .bit ⟨address, front.length, bit⟩ := by
    rw [dataEvents_append, Nat.zero_add]
    simp [dataEvents]
  rw [List.zipIdx_append, List.flatMap_append, hwithin, hboth, List.append_assoc]
  simpa using wordTells_last address h rest

/-- The words of a full frame tell their data bits and the check of the frame, and the words after
it go on in the frame that follows. -/
theorem walk_append (address : UInt32) {group : List UInt32}
    (h : group.length = Frame.wordCount) (rest : List UInt32) :
    walk order address (group ++ rest) =
      dataEvents address 0 group ++
        [.diagnostic (.eccCheck address (observedAfter 0 0 group) (computedAfter 0 0 group))] ++
        walk order (after order address) rest := by
  have hrest : ((rest.zipIdx group.length).flatMap fun (word, place) =>
      wordTells order address (group ++ rest) place word) =
        walk order (after order address) rest := by
    rw [h, List.zipIdx_eq_map_add, List.flatMap_map]
    apply List.flatMap_congr
    intro entry _
    show wordTells order address (group ++ rest) (Frame.wordCount + entry.2) entry.1 = _
    rw [Nat.add_comm]
    exact wordTells_add address h rest entry.2 entry.1
  rw [walk, List.zipIdx_append, List.flatMap_append, flatMap_wordTells_frame address h,
    Nat.zero_add, hrest]

/-! ## Taking frame data -/

/-- Frame data may be taken in two parts. -/
theorem takeAll_append (cursor : FrameCursor) (first second : List UInt32) :
    cursor.takeAll order (first ++ second) =
      (((cursor.takeAll order first).1.takeAll order second).1,
        (cursor.takeAll order first).2 ++
          ((cursor.takeAll order first).1.takeAll order second).2) := by
  induction first generalizing cursor with
  | nil => rfl
  | cons word words ih =>
      simp only [List.cons_append, takeAll]
      rw [ih, List.append_assoc]

/-- Words that end before the last of the frame tell their data bits, and move the cursor on in the
frame. -/
theorem takeAll_within (cursor : FrameCursor) {words : List UInt32}
    (h : cursor.word + words.length < Frame.wordCount) :
    (cursor.takeAll order words).2 = dataEvents cursor.frame cursor.word words ∧
      (cursor.takeAll order words).1.frame = cursor.frame ∧
      (cursor.takeAll order words).1.word.val = cursor.word + words.length := by
  induction words generalizing cursor with
  | nil => exact ⟨rfl, rfl, rfl⟩
  | cons word words ih =>
      simp only [List.length_cons] at h
      have hfurther : cursor.word + 1 < Frame.wordCount := by omega
      let next : FrameCursor := ⟨cursor.frame, ⟨cursor.word + 1, hfurther⟩,
        cursor.observed ||| Frame.storedPart cursor.word word,
        cursor.computed ^^^ Syndrome.ofWord cursor.word word⟩
      obtain ⟨hevents, hframe, hword⟩ :=
        ih next (by show cursor.word.val + 1 + words.length < _; omega)
      rw [takeAll, take, dif_pos hfurther]
      refine ⟨?_, hframe, hword.trans ?_⟩
      · simp only
        rw [hevents]
        simp [dataEvents, next]
      · show cursor.word.val + 1 + words.length = _
        rw [List.length_cons]
        omega

/-- From the start of a frame on, frame data tells what the walk along the order says. -/
theorem takeAll_start (address : UInt32) (words : List UInt32) :
    ((start address).takeAll order words).2 = walk order address words := by
  induction hlength : words.length using Nat.strong_induction_on generalizing address words with
  | _ length ih =>
      subst hlength
      by_cases hshort : words.length < Frame.wordCount
      · rw [walk_within address hshort]
        exact (takeAll_within (start address) (by rwa [start, Nat.zero_add])).1
      · -- The words fill a frame, and the rest begins another one.
        obtain ⟨group, rest, hgroup, rfl⟩ : ∃ group rest, group.length = Frame.wordCount ∧
            words = group ++ rest :=
          ⟨_, _, List.length_take_of_le (Nat.le_of_not_lt hshort),
            (List.take_append_drop Frame.wordCount words).symm⟩
        obtain ⟨word, others, rfl⟩ : ∃ word others, group = word :: others :=
          List.exists_cons_of_length_pos (by rw [hgroup]; decide)
        have hfull : (start address).takeAll order (word :: others) = _ :=
          takeAll_to_end (start address) word others (by rw [hgroup]; rfl)
        have hless : rest.length < (word :: others ++ rest).length := by
          rw [List.length_append, hgroup]
          exact Nat.lt_add_of_pos_left (by decide)
        rw [takeAll_append, hfull, walk_append address hgroup]
        exact congrArg (_ ++ ·) (ih rest.length hless (after order address) rest rfl)

/-- Frame data tells nothing else. -/
theorem isFrameData_of_mem_takeAll {cursor : FrameCursor} {words : List UInt32} {event : Event}
    (h : event ∈ (cursor.takeAll order words).2) : event.isFrameData = true := by
  induction words generalizing cursor with
  | nil => cases h
  | cons word words ih =>
      rcases List.mem_append.1 h with hword | hrest
      · rcases mem_take hword with ⟨bit, -, rfl⟩ | ⟨observed, computed, rfl⟩ <;> rfl
      · exact ih hrest

end FrameCursor

/-! ## Packets of frame data -/

namespace Packet

/-- Whether a packet writes to a register of its own. -/
def isWrite : Packet → Bool
  | .write .. => true
  | .bare .. | .long .. => false

/-- A packet that sends frame data or nothing: a write to the frame data register, a type 2 packet
once there was such a write, or a packet without payload. -/
def SendsFrameData (begun : Bool) : Packet → Prop
  | .bare .. => True
  | .write register _ => register = .fdri
  | .long .. => begun = true

end Packet

/-- Packets that send frame data one after another. The flag says whether there was a write of frame
data before them. -/
def SendFrameData (begun : Bool) : List Packet → Prop
  | [] => True
  | packet :: packets =>
    packet.SendsFrameData begun ∧ SendFrameData (begun || packet.isWrite) packets

namespace Boundary

open Decoder

variable {order : FrameOrder} {begun : Bool}

variable (order) in
/-- Payload for the frame data register is taken as frame data, whatever the type of its packet. -/
theorem settled_told_fdri (boundary : Boundary) (long : Bool) (words : List UInt32)
    (h : boundary.register = .fdri) :
    boundary.settled order long words =
        ⟨.fdri, Crc.extendAll boundary.crc
            (words.map fun word => (Register.fdri.raw.toUInt32, word)),
          (boundary.cursor.takeAll order words).1⟩ ∧
      boundary.told order long words = (boundary.cursor.takeAll order words).2 := by
  obtain ⟨register, crc, cursor⟩ := boundary
  obtain rfl : register = .fdri := h
  cases long <;>
    simp [settled, told, paid, ended, payloadCrc, payloadCursor, payloadEvents, endCrc, endCursor,
      endEvents]

variable (order) in
/-- A packet of frame data takes its words as frame data and leaves the decoder with the frame data
register if it wrote to it. -/
theorem take_frameData {packet : Packet} (h : packet.SendsFrameData begun) (boundary : Boundary)
    (hbegun : begun = true → boundary.register = .fdri) :
    (boundary.take order packet).1.crc = Crc.extendAll boundary.crc
        (packet.payload.map fun word => (Register.fdri.raw.toUInt32, word)) ∧
      (boundary.take order packet).1.cursor =
        (boundary.cursor.takeAll order packet.payload).1 ∧
      (boundary.take order packet).2.filter Event.isFrameData =
        (boundary.cursor.takeAll order packet.payload).2 ∧
      ((begun || packet.isWrite) = true → (boundary.take order packet).1.register = .fdri) := by
  have hall (cursor : FrameCursor) (words : List UInt32) :
      (cursor.takeAll order words).2.filter Event.isFrameData =
        (cursor.takeAll order words).2 :=
    List.filter_eq_self.2 fun _ => FrameCursor.isFrameData_of_mem_takeAll
  cases packet with
  | bare opcode register announced =>
      refine ⟨rfl, rfl, ?_, fun h => hbegun (by simpa [Packet.isWrite] using h)⟩
      by_cases hnop : opcode = .nop <;>
        simp [take, hnop, Event.isFrameData, Packet.payload, FrameCursor.takeAll]
  | write register words =>
      obtain rfl : register = .fdri := h
      obtain ⟨hsettled, htold⟩ := settled_told_fdri order
        { boundary with register := .fdri } false words rfl
      simp only [take, hsettled, htold]
      exact ⟨rfl, rfl, hall boundary.cursor words, fun _ => trivial⟩
  | long opcode words =>
      obtain ⟨hsettled, htold⟩ := settled_told_fdri order boundary true words (hbegun h)
      simp only [take, hsettled, htold]
      exact ⟨rfl, rfl, hall boundary.cursor words, fun _ => trivial⟩

variable (order) in
/-- Packets of frame data do what their words do in one piece. -/
theorem takeAll_frameData {packets : List Packet} (h : SendFrameData begun packets)
    (boundary : Boundary) (hbegun : begun = true → boundary.register = .fdri) :
    (boundary.takeAll order packets).1.crc = Crc.extendAll boundary.crc
        ((packets.flatMap Packet.payload).map fun word => (Register.fdri.raw.toUInt32, word)) ∧
      (boundary.takeAll order packets).2.filter Event.isFrameData =
        (boundary.cursor.takeAll order (packets.flatMap Packet.payload)).2 := by
  induction packets generalizing boundary begun with
  | nil => exact ⟨rfl, rfl⟩
  | cons packet packets ih =>
      obtain ⟨hcrc, hcursor, hevents, hregister⟩ :=
        take_frameData order h.1 boundary hbegun
      obtain ⟨hcrcs, hothers⟩ := ih h.2 (boundary.take order packet).1 hregister
      rw [hcrc] at hcrcs
      rw [hcursor] at hothers
      rw [takeAll, List.flatMap_cons]
      constructor
      · rw [hcrcs, List.map_append, Crc.extendAll, Crc.extendAll, Crc.extendAll, List.foldl_append]
      · rw [List.filter_append, hevents, hothers, FrameCursor.takeAll_append]

end Boundary

/-- Frame data is heard the same however it is cut into packets. After a write of a frame address,
packets that send words as frame data tell, of bits and syndromes, what the walk from that address
along the order says of these words, and they extend the check sum by these words for the frame data
register. -/
theorem Decoder.Reads.frameData {packets : List Packet} {words : List UInt32}
    (hfits : ∀ packet ∈ packets, packet.Fits) (hsend : SendFrameData false packets)
    (hwords : packets.flatMap Packet.payload = words) (order : FrameOrder) (boundary : Boundary)
    (position : Nat) (address : UInt32) :
    ∃ events, ∃ last : Boundary,
      Reads order (boundary.decoder position)
        ((.write .far [address] :: packets).flatMap Packet.bytes) events
        (last.decoder
          (position + ((.write .far [address] :: packets).flatMap Packet.bytes).length)) ∧
      events.filter Event.isFrameData = FrameCursor.walk order address words ∧
      last.crc = Crc.extendAll (Crc.extend Register.far.raw.toUInt32 address boundary.crc)
        (words.map fun word => (Register.fdri.raw.toUInt32, word)) := by
  subst hwords
  have hfar : (Packet.write .far [address]).Fits :=
    ⟨by decide, show 1 ≤ Header.type1Limit by decide⟩
  obtain ⟨hcrc, hevents⟩ := Boundary.takeAll_frameData order hsend
    ⟨.far, Crc.extend Register.far.raw.toUInt32 address boundary.crc, .start address⟩
    fun hbegun => absurd hbegun Bool.false_ne_true
  refine ⟨_, _, .packets (List.forall_mem_cons.2 ⟨hfar, hfits⟩) boundary position, ?_, ?_⟩
  · rw [Boundary.takeAll, Boundary.take_far, List.filter_append, hevents,
      FrameCursor.takeAll_start]
    rfl
  · rw [Boundary.takeAll, Boundary.take_far]
    exact hcrc

/-- Ninety-two words in a write and two in a type 2 packet, with a packet that does nothing before
them and one that reads between them: the frame is checked in the middle of the type 2 packet, and
its last word goes to the frame that follows. -/
theorem Decoder.Reads.frameData_straddling :
    let order := FrameOrder.ofAddresses [0x100, 0x180]
    let packets : List Packet :=
      [.nop, .write .fdri (List.replicate 92 0), .bare .read .fdri 3,
        .long .write [0x80000000, 1]]
    let words := List.replicate 92 0 ++ [0x80000000, 1]
    (∀ packet ∈ packets, packet.Fits) ∧ SendFrameData false packets ∧
      packets.flatMap Packet.payload = words ∧
      ∃ events, ∃ last : Boundary,
        Reads order (Boundary.decoder ⟨.crc, 0, .start 0⟩ 4)
          ((.write .far [0x100] :: packets).flatMap Packet.bytes) events
          (last.decoder (4 + ((.write .far [0x100] :: packets).flatMap Packet.bytes).length)) ∧
        events.filter Event.isFrameData =
          [.bit ⟨0x100, 92, 31⟩, .diagnostic (.eccCheck 0x100 0 (Syndrome.ofBit 92 31)),
            .bit ⟨0x180, 0, 0⟩] ∧
        last.crc = Crc.extendAll (Crc.extend Register.far.raw.toUInt32 0x100 0)
          (words.map fun word => (Register.fdri.raw.toUInt32, word)) := by
  intro order packets words
  have hfits : ∀ packet ∈ packets, packet.Fits := by
    simp [packets, Packet.Fits, Packet.nop]
    decide
  have hsend : SendFrameData false packets := by
    simp [packets, SendFrameData, Packet.SendsFrameData, Packet.isWrite, Packet.nop]
  have hwords : packets.flatMap Packet.payload = words := by decide +kernel
  have hwalk : FrameCursor.walk order 0x100 words =
      [.bit ⟨0x100, 92, 31⟩, .diagnostic (.eccCheck 0x100 0 (Syndrome.ofBit 92 31)),
        .bit ⟨0x180, 0, 0⟩] := by
    decide +kernel
  rw [← hwalk]
  exact ⟨hfits, hsend, hwords,
    Decoder.Reads.frameData hfits hsend hwords order ⟨.crc, 0, .start 0⟩ 4 0x100⟩

end ConfigStream
