import ConfigStream.Proofs.Decoder.Course
import ConfigStream.Proofs.Stream.Agreement

/-!
# What a check sum is of

A stream is a sequence of packets, whatever else is in it (`streamPackets`), and what a decoder
computes for a check sum depends on these alone: it is the check sum of the payload words since the
last restart, each counted for the register written last (`countedWords`). The order of frames has
no part in it, so that two decoders which follow different orders tell the same of a stream, but for
the bits and the syndromes (`decode_checkSums`).

A history is a list of packets with the latest first.
-/

namespace ConfigStream

/-! ## Packets and histories -/

namespace Packet

/-- Whether a packet starts the check sum anew: a check sum write, with whatever payload, or a write
of commands that ends with a reset. -/
def restarts : Packet → Bool
  | .write register words =>
    register = .crc || (register = .cmd && words.getLast? = some Command.rcrc.raw)
  | .bare .. | .long .. => false

/-- The register that payload is for after a history: the one written last. -/
def lastWritten : List Packet → Register
  | [] => .crc
  | .write register _ :: _ => register
  | .bare .. :: history | .long .. :: history => lastWritten history

/-- The payload words since the last restart in a history, each with the register that it is for, in
stream order. -/
def countedWords : List Packet → List (UInt32 × UInt32)
  | [] => []
  | packet :: history =>
    if packet.restarts then []
    else
      countedWords history ++
        packet.payload.map fun word => ((lastWritten (packet :: history)).raw.toUInt32, word)

/-- The check sum after a history. -/
def checkSum (history : List Packet) : UInt32 := Crc.extendAll 0 (countedWords history)

/-- What a packet has checked after a history: a check sum that it writes against the one
computed. -/
def check? (history : List Packet) : Packet → Option (UInt32 × UInt32)
  | .write register words =>
    if register = .crc then words.getLast?.map fun written => (written, checkSum history) else none
  | .bare .. | .long .. => none

/-- What packets have checked one after another. -/
def checks (history : List Packet) : List Packet → List (UInt32 × UInt32)
  | [] => []
  | packet :: packets => (packet.check? history).toList ++ checks (packet :: history) packets

end Packet

open Packet (lastWritten countedWords checkSum checks)

/-- The packet of a leg that is one. -/
def Leg.packet? : Leg → Option Packet
  | .packet found => some found
  | .detour .. => none

/-- The complete packets of a stream, from its first sync word on. -/
def streamPackets (bytes : List UInt8) : List Packet :=
  match findSync 0 bytes with
  | some (sync, rest) => (Course.ofBytes (sync + 4) rest).legs.filterMap Leg.packet?
  | none => []

/-! ## The check sum of a history -/

/-- A boundary remembers the register and the check sum of a history. -/
structure Boundary.Remembers (boundary : Boundary) (history : List Packet) : Prop where
  register : boundary.register = lastWritten history
  crc : boundary.crc = checkSum history

namespace Boundary

open Decoder

variable {order : FrameOrder} {boundary : Boundary} {history : List Packet}

/-- Words that are counted extend the check sum. -/
theorem extendAll_counted {packet : Packet} (h : packet.restarts = false) :
    checkSum (packet :: history) = Crc.extendAll (checkSum history)
      (packet.payload.map fun word => ((lastWritten (packet :: history)).raw.toUInt32, word)) := by
  rw [checkSum, countedWords, h, if_neg Bool.false_ne_true, Crc.extendAll, List.foldl_append]
  rfl

/-- A packet is remembered. -/
theorem Remembers.take (h : boundary.Remembers history) (packet : Packet) :
    (boundary.take order packet).1.Remembers (packet :: history) := by
  cases packet with
  | bare opcode register announced =>
      refine ⟨h.register, h.crc.trans ?_⟩
      rw [extendAll_counted rfl]
      rfl
  | write register words =>
      refine ⟨rfl, (crc_settled_write { boundary with register } words).trans ?_⟩
      split
      · rename_i hrestarts
        have hrestart : (Packet.write register words).restarts = true := by
          simpa [Packet.restarts] using hrestarts
        rw [checkSum, countedWords, hrestart]
        rfl
      · rename_i hrestarts
        have hcounts : (Packet.write register words).restarts = false := by
          simpa [Packet.restarts] using hrestarts
        rw [extendAll_counted hcounts, ← h.crc]
        rfl
  | long opcode words =>
      refine ⟨h.register, ?_⟩
      have hcrc : (boundary.settled order true words).crc = Crc.extendAll boundary.crc
          (words.map fun word => (boundary.register.raw.toUInt32, word)) := by
        simp [settled, ended, paid, endCrc, payloadCrc]
      rw [extendAll_counted rfl, ← h.crc]
      rw [h.register] at hcrc
      exact hcrc

/-- What a packet has checked. -/
theorem Remembers.crcChecks (h : boundary.Remembers history) (packet : Packet) :
    (boundary.take order packet).2.filterMap Event.crcCheck? = (packet.check? history).toList := by
  cases packet with
  | bare opcode register announced => cases opcode <;> rfl
  | write register words =>
      by_cases hcrc : register = .crc
      · subst hcrc
        have htold : ({ boundary with register := .crc } : Boundary).told order false words =
            (words.getLast?.map fun written =>
              Event.diagnostic (.crcCheck written (checkSum history))).toList := by
          simp [told, payloadEvents, wordEvents, endEvents, payloadCrc, h.crc]
        simp only [Boundary.take, htold, Packet.check?, if_true]
        cases words.getLast? <;> rfl
      · rw [Packet.check?, if_neg hcrc]
        have hnone : (boundary.takeAll order [.write register words]).2.filterMap Event.crcCheck? =
            [] :=
          crcChecks_write boundary words hcrc
        simpa [takeAll] using hnone
  | long opcode words =>
      exact crcChecks_told order boundary words (.inl rfl)

/-- What legs have checked is what their packets have checked. -/
theorem Remembers.crcChecks_travel (h : boundary.Remembers history) (legs : List Leg) :
    (boundary.travel order legs).2.filterMap Event.crcCheck? =
      checks history (legs.filterMap Leg.packet?) := by
  induction legs generalizing boundary history with
  | nil => rfl
  | cons leg legs ih =>
      rw [travel, List.filterMap_append]
      cases leg with
      | packet packet =>
          rw [List.filterMap_cons_some (f := Leg.packet?) rfl]
          exact congrArg₂ (· ++ ·) (h.crcChecks packet) (ih (h.take packet))
      | detour dummy sync =>
          rw [List.filterMap_cons_none (f := Leg.packet?) rfl]
          exact ih h

end Boundary

/-! ## Two orders -/

/-- The diagnostic of an event, unless it is the check of a syndrome. -/
def Event.notice? : Event → Option Diagnostic
  | .bit _ | .diagnostic (.eccCheck ..) => none
  | .diagnostic found => some found

/-- The diagnostics of a report but for the checks of syndromes, in stream order. -/
def Report.notices (report : Report) : List Diagnostic := report.events.filterMap Event.notice?

/-- Frame data gives no other notice. -/
theorem Event.notice?_of_isFrameData {event : Event} (h : event.isFrameData = true) :
    event.notice? = none := by
  cases event with
  | bit => rfl
  | diagnostic found => cases found <;> first | rfl | cases h

/-- Two boundaries that differ at most in the place in the frame. -/
structure Boundary.Alike (boundary other : Boundary) : Prop where
  register : boundary.register = other.register
  crc : boundary.crc = other.crc

namespace Boundary

open Decoder

variable {order otherOrder : FrameOrder} {boundary other : Boundary}

/-- Where frame data goes has no part in what else payload tells. -/
theorem notices_payloadEvents (register : Register) (long : Bool) (cursor place : FrameCursor)
    (words : List UInt32) :
    (payloadEvents order register long cursor words).filterMap Event.notice? =
      (payloadEvents otherOrder register long place words).filterMap Event.notice? := by
  have hnone (order : FrameOrder) (cursor : FrameCursor) :
      (cursor.takeAll order words).2.filterMap Event.notice? = [] :=
    List.filterMap_eq_nil_iff.2 fun _ hevent =>
      Event.notice?_of_isFrameData (FrameCursor.isFrameData_of_mem_takeAll hevent)
  unfold payloadEvents
  split
  · rw [hnone, hnone]
  · rfl

variable (order otherOrder) in
theorem Alike.notices_told (h : boundary.Alike other) (long : Bool) (words : List UInt32) :
    (boundary.told order long words).filterMap Event.notice? =
      (other.told otherOrder long words).filterMap Event.notice? := by
  rw [told, told, List.filterMap_append, List.filterMap_append, h.register, h.crc]
  exact congrArg (· ++ _) (notices_payloadEvents ..)

theorem Alike.settled (h : boundary.Alike other) (long : Bool) (words : List UInt32) :
    (boundary.settled order long words).Alike (other.settled otherOrder long words) := by
  refine ⟨h.register, ?_⟩
  simp only [Boundary.settled, ended, paid, h.register, h.crc]

/-- A packet tells the same at boundaries that are alike, and leaves them alike. -/
theorem Alike.take (h : boundary.Alike other) (packet : Packet) :
    (boundary.take order packet).2.filterMap Event.notice? =
        (other.take otherOrder packet).2.filterMap Event.notice? ∧
      (boundary.take order packet).1.Alike (other.take otherOrder packet).1 := by
  cases packet with
  | bare opcode register announced => exact ⟨rfl, h⟩
  | write register words =>
      have hbegun : ({ boundary with register } : Boundary).Alike { other with register } :=
        ⟨rfl, h.crc⟩
      refine ⟨?_, hbegun.settled false words⟩
      simp only [Boundary.take, List.cons_append, List.filterMap_append, List.filterMap_cons,
        hbegun.notices_told order otherOrder false words]
  | long opcode words =>
      refine ⟨?_, h.settled true words⟩
      simp only [Boundary.take, List.filterMap_cons, h.register,
        h.notices_told order otherOrder true words]

variable (order otherOrder) in
/-- Legs tell the same at boundaries that are alike, and leave them alike. -/
theorem Alike.travel (h : boundary.Alike other) (legs : List Leg) :
    (boundary.travel order legs).2.filterMap Event.notice? =
        (other.travel otherOrder legs).2.filterMap Event.notice? ∧
      (boundary.travel order legs).1.Alike (other.travel otherOrder legs).1 := by
  induction legs generalizing boundary other with
  | nil => exact ⟨rfl, h⟩
  | cons leg legs ih =>
      have hleg : (boundary.pass order leg).2.filterMap Event.notice? =
            (other.pass otherOrder leg).2.filterMap Event.notice? ∧
          (boundary.pass order leg).1.Alike (other.pass otherOrder leg).1 := by
        cases leg with
        | packet packet => exact h.take packet
        | detour dummy sync => exact ⟨rfl, h⟩
      obtain ⟨hnotices, halike⟩ := ih hleg.2
      rw [Boundary.travel, Boundary.travel, List.filterMap_append, List.filterMap_append, hleg.1]
      exact ⟨congrArg (_ ++ ·) hnotices, halike⟩

end Boundary

/-! ## Streams -/

open Decoder

variable {order otherOrder : FrameOrder}

/-- A course that can be decoded has checked what its packets have checked. -/
theorem Course.crcChecks {course : Course} {last : List Event}
    (hfinish : course.ending.finish = .ok last) {boundary : Boundary} {history : List Packet}
    (h : boundary.Remembers history) :
    (course.told order boundary ++ last).filterMap Event.crcCheck? =
      checks history (course.legs.filterMap Leg.packet?) := by
  obtain ⟨legs, ending⟩ := course
  rw [Course.told, List.append_assoc, List.filterMap_append, h.crcChecks_travel]
  cases ending with
  | complete | stopped | lost =>
      obtain rfl := Except.ok.inj hfinish
      exact List.append_nil _
  | cut => cases hfinish

variable (order otherOrder) in
/-- A course that can be decoded gives the same notices in any order. -/
theorem Course.notices {course : Course} {last : List Event}
    (hfinish : course.ending.finish = .ok last) {boundary other : Boundary}
    (h : boundary.Alike other) :
    (course.told order boundary ++ last).filterMap Event.notice? =
      (course.told otherOrder other ++ last).filterMap Event.notice? := by
  obtain ⟨legs, ending⟩ := course
  have hending (boundary other : Boundary) :
      ending.told order boundary = ending.told otherOrder other := by
    cases ending with
    | complete | stopped | lost => rfl
    | cut => cases hfinish
  have hlegs := (h.travel order otherOrder legs).1
  simp only [Course.told, List.append_assoc, List.filterMap_append, hlegs,
    hending _ (other.travel otherOrder legs).1]

/-- What decoders check and tell depends on the packets of a stream, not on the order of frames. The
checks of a report are those of its packets: each check sum that is written is compared with that of
the payload words since the last restart, each counted for the register written last. Decoders that
follow different orders find the same fault or give the same notices, which are all diagnostics but
for the checks of syndromes. -/
theorem decode_checkSums (order : FrameOrder) (bytes : List UInt8) :
    (∀ report, decode order bytes = .ok report →
      report.crcChecks = checks [] (streamPackets bytes)) ∧
    ∀ otherOrder, (decode order bytes).map Report.notices =
      (decode otherOrder bytes).map Report.notices := by
  cases hfound : findSync 0 bytes with
  | none =>
      have hdecode (order : FrameOrder) := Decoder.decode_of_noSync order hfound
      refine ⟨fun report hreport => ?_, fun otherOrder => by rw [hdecode, hdecode]⟩
      cases hreport.symm.trans (hdecode order)
  | some found =>
      obtain ⟨sync, rest⟩ := found
      have hdecode (order : FrameOrder) := Decoder.decode_of_findSync order hfound
      cases hfinish : (Course.ofBytes (sync + 4) rest).ending.finish with
      | error fault =>
          simp only [hfinish, Except.map] at hdecode
          refine ⟨fun report hreport => ?_, fun otherOrder => by rw [hdecode, hdecode]⟩
          cases hreport.symm.trans (hdecode order)
      | ok last =>
          rw [hfinish] at hdecode
          constructor
          · intro report hreport
            obtain rfl := Except.ok.inj (hreport.symm.trans (hdecode order))
            have hstart : Boundary.atSync.Remembers [] := ⟨rfl, rfl⟩
            rw [streamPackets, hfound, Report.crcChecks, List.filterMap_cons_none rfl,
              Course.crcChecks hfinish hstart]
          · intro otherOrder
            have halike : Boundary.atSync.Alike .atSync := ⟨rfl, rfl⟩
            simp only [hdecode, Except.map, Report.notices, List.filterMap_cons,
              Course.notices order otherOrder hfinish halike]

/-- Words count over a detour, and type 2 payload counts for the register written last; a write of
commands that ends with a reset and a check sum write without payload start the check sum anew. -/
theorem decode_checkSums_detour :
    let early : List Packet :=
      [.write .idcode [3], .write .cmd [1, 7], .write .cmd [7, 1], .write .idcode [5]]
    let late : List Packet :=
      [.long .read [6], .write .crc [0], .write .idcode [8], .write .crc [], .write .crc [9]]
    let bytes := Word.toBytes syncWord ++ early.flatMap Packet.bytes ++ Word.toBytes dummyWord ++
      [1] ++ Word.toBytes syncWord ++ late.flatMap Packet.bytes
    let counted : List (UInt32 × UInt32) := [(4, 7), (4, 1), (12, 5), (12, 6)]
    ∃ report, decode .empty bytes = .ok report ∧
      report.crcChecks = [(0, Crc.extendAll 0 counted), (9, 0)] ∧
      ∀ otherOrder, (decode otherOrder bytes).map Report.notices = .ok report.notices := by
  intro early late bytes counted
  have hok : (decode .empty bytes).isOk = true := by decide +kernel
  have hchecked : checks [] (streamPackets bytes) = [(0, Crc.extendAll 0 counted), (9, 0)] := by
    decide +kernel
  obtain ⟨hchecks, hnotices⟩ := decode_checkSums .empty bytes
  cases hdecode : decode .empty bytes with
  | error fault =>
      rw [hdecode] at hok
      cases hok
  | ok report =>
      refine ⟨report, rfl, (hchecks report hdecode).trans hchecked, fun otherOrder => ?_⟩
      rw [← hnotices, hdecode]
      rfl

end ConfigStream
