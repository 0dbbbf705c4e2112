import ConfigStream.Proofs.Decoder.FrameData
import ConfigStream.Proofs.Report
import ConfigStream.Proofs.Stream.Lockstep

/-!
# Calls that write whole frames

A writer that writes frame data in whole frames leaves a decoder at the start of a frame after every
call. What such a call tells is then known from the call, the check sum and that frame alone
(`Boundary.hear_framed`). The order of the frames decides only where the data goes, so all events
are the same under any other order but for the frame they name (`Boundary.hearAll_unplaced`).
-/

namespace ConfigStream

namespace Writer.Call

/-- A call that leaves frame data whole: it writes a whole frame, or no frame data. -/
def IsFramed : Call → Prop
  | .short opcode target words =>
      opcode = .write ∧ target = .fdri ∧ words.length = Frame.wordCount
  | .register target _ => target ≠ .fdri ∧ target ≠ .crc ∧ target.raw.toNat < 2 ^ 14
  | .nop | .nops _ | .command _ | .flush | .resetCrc => True
  | .raw _ | .field .. | .word _ | .payload _ | .long _ => False

/-- Whether a framed call writes frame data. -/
def isData : Call → Bool
  | .short .. => true
  | _ => false

/-- What a framed call tells at the start of a frame. -/
def eventsAt (frame crc : UInt32) : Call → List Event
  | .short _ target words =>
      .diagnostic (.write target words.length) :: FrameCursor.dataEvents frame 0 words ++
        [.diagnostic (.eccCheck frame (FrameCursor.observedAfter 0 0 words)
          (FrameCursor.computedAfter 0 0 words))]
  | .register target value =>
      [.diagnostic (.write target 1),
        if target = .far then .diagnostic (.moveTo value)
        else if target = .cmd then .diagnostic (.command ⟨value⟩)
        else .diagnostic (.data target value)]
  | .nop => [.diagnostic .nop]
  | .nops count => List.replicate count (.diagnostic .nop)
  | .command issued => [.diagnostic (.write .cmd 1), .diagnostic (.command issued)]
  | .flush => [.diagnostic (.write .crc 1), .diagnostic (.crcCheck crc crc)]
  | .raw _ | .field .. | .word _ | .payload _ | .long _ | .resetCrc => []

/-- The register that a framed call leaves a decoder with. -/
def registerAfter (register : Register) : Call → Register
  | .short _ target _ | .register target _ => target
  | .command _ => .cmd
  | .flush => .crc
  | _ => register

/-- The check sum that a framed call leaves a decoder with. -/
def crcAfter (crc : UInt32) : Call → UInt32
  | .short _ target words =>
      Crc.extendAll crc (words.map fun word => (target.raw.toUInt32, word))
  | .register target value =>
      Decoder.endCrc target false (some value) (Crc.extend target.raw.toUInt32 value crc)
  | .command issued =>
      Decoder.endCrc .cmd false (some issued.raw)
        (Crc.extend Register.cmd.raw.toUInt32 issued.raw crc)
  | .flush => 0
  | _ => crc

/-- The frame at whose start a framed call leaves a decoder. -/
def frameAfter (order : FrameOrder) (frame : UInt32) : Call → UInt32
  | .short .. | .flush => FrameCursor.after order frame
  | .register target value => if target = .far then value else frame
  | _ => frame

/-- Where a framed call is heard decides only what place data is told of. -/
theorem eventsAt_unplaced (call : Call) (frame other crc : UInt32) :
    (call.eventsAt frame crc).map Event.unplaced =
      (call.eventsAt other crc).map Event.unplaced := by
  cases call with
  | short opcode target words =>
      have hbit (bit : Nat) (place : UInt32) (word : Nat) :
          Event.unplaced (.bit ⟨place, word, bit⟩) = .bit ⟨0, word, bit⟩ := rfl
      simp [eventsAt, FrameCursor.dataEvents, List.map_flatMap, Function.comp_def, hbit]
      rfl
  | _ => rfl

/-- A framed call tells nothing irregular. -/
theorem eventsAt_regular (call : Call) (frame crc : UInt32) :
    ∀ event ∈ call.eventsAt frame crc, event.isIrregular = false := by
  intro event hevent
  cases call with
  | short opcode target words =>
      simp only [eventsAt, List.cons_append, List.mem_cons, List.mem_append, List.mem_nil_iff,
        or_false] at hevent
      rcases hevent with rfl | hdata | rfl
      · rfl
      · obtain ⟨place, bit, -, rfl⟩ := FrameCursor.mem_dataEvents hdata
        rfl
      · rfl
  | register target value =>
      simp only [eventsAt, List.mem_cons, List.mem_nil_iff, or_false] at hevent
      rcases hevent with rfl | rfl
      · rfl
      · split
        · rfl
        · split <;> rfl
  | nop =>
      obtain rfl := List.mem_singleton.1 hevent
      rfl
  | nops count =>
      obtain rfl := List.eq_of_mem_replicate hevent
      rfl
  | command issued =>
      simp only [eventsAt, List.mem_cons, List.mem_nil_iff, or_false] at hevent
      rcases hevent with rfl | rfl <;> rfl
  | flush =>
      simp only [eventsAt, List.mem_cons, List.mem_nil_iff, or_false] at hevent
      rcases hevent with rfl | rfl <;> rfl
  | raw | field | word | payload | long | resetCrc => cases hevent

/-- A framed call tells of a check sum only when it writes one out. -/
theorem eventsAt_crcChecks (call : Call) (frame crc : UInt32) :
    (call.eventsAt frame crc).filterMap Event.crcCheck? =
      if call = .flush then [(crc, crc)] else [] := by
  cases call with
  | short opcode target words =>
      have hdata : (FrameCursor.dataEvents frame 0 words).filterMap Event.crcCheck? = [] := by
        apply List.filterMap_eq_nil_iff.2
        intro event hevent
        obtain ⟨place, bit, -, rfl⟩ := FrameCursor.mem_dataEvents hevent
        rfl
      rw [eventsAt, List.cons_append, List.filterMap_cons_none rfl, List.filterMap_append, hdata]
      rfl
  | register target value =>
      by_cases hfar : target = .far
      · simp [eventsAt, Event.crcCheck?, hfar]
      · by_cases hcmd : target = .cmd <;> simp [eventsAt, Event.crcCheck?, hfar, hcmd]
  | nops count =>
      simp [eventsAt, Event.crcCheck?]
  | flush => rfl
  | nop | command | raw | field | word | payload | long | resetCrc => rfl

/-- A framed call without frame data tells nothing of data bits and syndromes. -/
theorem eventsAt_silent {call : Call} (h : call.isData = false) (frame crc : UInt32) :
    (call.eventsAt frame crc).filterMap Event.bit? = [] ∧
      (call.eventsAt frame crc).filterMap Event.eccCheck? = [] := by
  cases call with
  | short => cases h
  | register target value =>
      by_cases hfar : target = .far
      · simp [eventsAt, Event.bit?, Event.eccCheck?, hfar]
      · by_cases hcmd : target = .cmd <;>
          simp [eventsAt, Event.bit?, Event.eccCheck?, hfar, hcmd]
  | nops count => simp [eventsAt, Event.bit?, Event.eccCheck?]
  | nop | command | flush => exact ⟨rfl, rfl⟩
  | raw | field | word | payload | long | resetCrc => exact ⟨rfl, rfl⟩

end Writer.Call

namespace Boundary

open Decoder

variable {order : FrameOrder}

/-! ## Packets of one word -/

theorem take_far (boundary : Boundary) (address : UInt32) :
    boundary.take order (.write .far [address]) =
      (⟨.far, Crc.extend Register.far.raw.toUInt32 address boundary.crc, .start address⟩,
        [.diagnostic (.write .far 1), .diagnostic (.moveTo address)]) := by
  simp [take, settled, told, paid, ended, payloadCursor, payloadEvents, payloadCrc, endCrc,
    endCursor, endEvents, wordEvents, Crc.extendAll]

theorem take_crc (boundary : Boundary) (written : UInt32) :
    boundary.take order (.write .crc [written]) =
      (⟨.crc, 0, ((order.next? boundary.cursor.frame).map .start).getD boundary.cursor⟩,
        [.diagnostic (.write .crc 1), .diagnostic (.crcCheck written boundary.crc)]) := by
  simp [take, settled, told, paid, ended, payloadCursor, payloadEvents, payloadCrc, endCrc,
    endCursor, endEvents, wordEvents]

/-- At the start of a frame, a check sum leads to the start of the next. Where none follows, a
decoder stays at the frame it is at. -/
theorem take_crc_start (register : Register) (crc frame written : UInt32) :
    (⟨register, crc, .start frame⟩ : Boundary).take order (.write .crc [written]) =
      (⟨.crc, 0, .start (FrameCursor.after order frame)⟩,
        [.diagnostic (.write .crc 1), .diagnostic (.crcCheck written crc)]) := by
  have hafter : ((order.next? (FrameCursor.start frame).frame).map .start).getD (.start frame) =
      FrameCursor.start (FrameCursor.after order frame) := by
    unfold FrameCursor.after
    show ((order.next? frame).map _).getD _ = _
    cases order.next? frame <;> rfl
  rw [take_crc, hafter]

/-- A write of one word that is no frame data, no address and no check sum. -/
theorem take_single (boundary : Boundary) {target : Register} (value : UInt32)
    (hfdri : target ≠ .fdri) (hfar : target ≠ .far) (hcrc : target ≠ .crc) :
    boundary.take order (.write target [value]) =
      (⟨target, endCrc target false (some value)
          (Crc.extend target.raw.toUInt32 value boundary.crc), boundary.cursor⟩,
        [.diagnostic (.write target 1),
          if target = .cmd then .diagnostic (.command ⟨value⟩)
          else .diagnostic (.data target value)]) := by
  by_cases hcmd : target = .cmd
  · simp [take, settled, told, paid, ended, payloadCursor, payloadEvents, payloadCrc, endCursor,
      endEvents, wordEvents, Crc.extendAll, hcmd]
  · simp [take, settled, told, paid, ended, payloadCursor, payloadEvents, payloadCrc, endCursor,
      endEvents, wordEvents, Crc.extendAll, hcmd, hfdri, hfar, hcrc]

/-- A whole frame, from its first word on. -/
theorem take_frame (register : Register) (crc frame : UInt32) {words : List UInt32}
    (h : words.length = Frame.wordCount) :
    (⟨register, crc, .start frame⟩ : Boundary).take order (.write .fdri words) =
      (⟨.fdri, Crc.extendAll crc (words.map fun word => (Register.fdri.raw.toUInt32, word)),
          .start (FrameCursor.after order frame)⟩,
        .diagnostic (.write .fdri words.length) :: FrameCursor.dataEvents frame 0 words ++
          [.diagnostic (.eccCheck frame (FrameCursor.observedAfter 0 0 words)
            (FrameCursor.computedAfter 0 0 words))]) := by
  have hdata : (FrameCursor.start frame).takeAll order words =
      (.start (FrameCursor.after order frame), FrameCursor.dataEvents frame 0 words ++
        [.diagnostic (.eccCheck frame (FrameCursor.observedAfter 0 0 words)
          (FrameCursor.computedAfter 0 0 words))]) := by
    obtain ⟨word, words, rfl⟩ : ∃ first rest, words = first :: rest :=
      List.exists_cons_of_length_pos (by rw [h]; decide)
    exact FrameCursor.takeAll_to_end (.start frame) word words (by rw [h]; rfl)
  simp [take, settled, told, paid, ended, payloadCursor, payloadEvents, payloadCrc, hdata, endCrc,
    endCursor, endEvents]

/-! ## Framed calls -/

/-- A framed call is heard as is known of it, at the start of whatever frame. -/
theorem hear_framed {call : Writer.Call} (h : call.IsFramed) (register : Register)
    (crc frame : UInt32) :
    (⟨register, crc, .start frame⟩ : Boundary).hear order call =
      (⟨call.registerAfter register, call.crcAfter crc, .start (call.frameAfter order frame)⟩,
        call.eventsAt frame crc) := by
  have hone (packet : Packet) (next : Boundary) (events : List Event)
      (htake : (⟨register, crc, .start frame⟩ : Boundary).take order packet = (next, events)) :
      (⟨register, crc, .start frame⟩ : Boundary).takeAll order [packet] = (next, events) := by
    simp [takeAll, htake]
  cases call with
  | short opcode target words =>
      obtain ⟨rfl, rfl, hwords⟩ := h
      exact hone _ _ _ (take_frame register crc frame hwords)
  | nop => rfl
  | nops count => exact takeAll_replicate_nop _ count
  | register target value =>
      obtain ⟨hfdri, hcrc, _⟩ := h
      apply hone
      by_cases hfar : target = .far
      · subst hfar
        exact take_far _ value
      · rw [take_single _ value hfdri hfar hcrc]
        simp only [Writer.Call.frameAfter, Writer.Call.eventsAt, if_neg hfar]
        rfl
  | command issued =>
      exact hone _ _ _ (take_single _ issued.raw (by simp) (by simp) (by simp))
  | flush => exact hone _ _ _ (take_crc_start register crc frame _)
  | resetCrc => rfl
  | raw | field | word | payload | long => cases h

/-! ## Runs of framed calls -/

/-- After framed calls a decoder is at the start of a frame. -/
theorem hearAll_start {calls : List Writer.Call} (h : ∀ call ∈ calls, call.IsFramed)
    (order : FrameOrder) (register : Register) (crc frame : UInt32) :
    ∃ register' crc', ((⟨register, crc, .start frame⟩ : Boundary).hearAll order calls).1 =
      ⟨register', crc', .start (calls.foldl (fun frame call => call.frameAfter order frame) frame)⟩
      := by
  induction calls generalizing register crc frame with
  | nil => exact ⟨register, crc, rfl⟩
  | cons call calls ih =>
      rw [hearAll, hear_framed (h call List.mem_cons_self)]
      exact ih (fun other hother => h other (List.mem_cons_of_mem _ hother)) _ _ _

/-- Framed calls without frame data tell nothing of data bits and syndromes. -/
theorem hearAll_silent {calls : List Writer.Call} (h : ∀ call ∈ calls, call.IsFramed)
    (hsilent : ∀ call ∈ calls, call.isData = false) (order : FrameOrder) (register : Register)
    (crc frame : UInt32) :
    ((⟨register, crc, .start frame⟩ : Boundary).hearAll order calls).2.filterMap Event.bit? = [] ∧
      ((⟨register, crc, .start frame⟩ : Boundary).hearAll order calls).2.filterMap
        Event.eccCheck? = [] := by
  induction calls generalizing register crc frame with
  | nil => exact ⟨rfl, rfl⟩
  | cons call calls ih =>
      obtain ⟨hbits, hchecks⟩ :=
        Writer.Call.eventsAt_silent (hsilent call List.mem_cons_self) frame crc
      obtain ⟨hlaterBits, hlaterChecks⟩ :=
        ih (fun later hlater => h later (List.mem_cons_of_mem _ hlater))
          (fun later hlater => hsilent later (List.mem_cons_of_mem _ hlater))
          (call.registerAfter register) (call.crcAfter crc) (call.frameAfter order frame)
      rw [hearAll, hear_framed (h call List.mem_cons_self)]
      constructor
      · exact (List.filterMap_append ..).trans (by rw [hbits, hlaterBits, List.append_nil])
      · exact (List.filterMap_append ..).trans (by rw [hchecks, hlaterChecks, List.append_nil])

/-- The same calls are heard as the same events under any two orders and from any two frames, but
for the frames that data is told of. -/
theorem hearAll_unplaced {calls : List Writer.Call} (h : ∀ call ∈ calls, call.IsFramed)
    (order other : FrameOrder) (register register' : Register) (crc frame frame' : UInt32) :
    ((⟨register, crc, .start frame⟩ : Boundary).hearAll order calls).2.map Event.unplaced =
      ((⟨register', crc, .start frame'⟩ : Boundary).hearAll other calls).2.map Event.unplaced := by
  induction calls generalizing register register' crc frame frame' with
  | nil => rfl
  | cons call calls ih =>
      have hcall := h call List.mem_cons_self
      have hrest := ih fun later hlater => h later (List.mem_cons_of_mem _ hlater)
      -- The check sum does not depend on the frame, so both go on with the same one.
      rw [hearAll, hearAll, hear_framed hcall, hear_framed hcall]
      simp only [List.map_append]
      rw [Writer.Call.eventsAt_unplaced call frame frame' crc, hrest]

/-- Framed calls tell nothing irregular. -/
theorem hearAll_regular {calls : List Writer.Call} (h : ∀ call ∈ calls, call.IsFramed)
    (order : FrameOrder) (register : Register) (crc frame : UInt32) :
    ∀ event ∈ ((⟨register, crc, .start frame⟩ : Boundary).hearAll order calls).2,
      event.isIrregular = false := by
  induction calls generalizing register crc frame with
  | nil => exact fun _ hevent => absurd hevent List.not_mem_nil
  | cons call calls ih =>
      have hcall := h call List.mem_cons_self
      rw [hearAll, hear_framed hcall]
      intro event hevent
      rcases List.mem_append.1 hevent with hevent | hevent
      · exact Writer.Call.eventsAt_regular call frame crc event hevent
      · exact ih (fun later hlater => h later (List.mem_cons_of_mem _ hlater)) _ _ _ event hevent

/-- Framed calls tell of one check sum for every flush, and it is right. -/
theorem hearAll_crcChecks {calls : List Writer.Call} (h : ∀ call ∈ calls, call.IsFramed)
    (order : FrameOrder) (register : Register) (crc frame : UInt32) :
    (((⟨register, crc, .start frame⟩ : Boundary).hearAll order calls).2.filterMap
        Event.crcCheck?).length = calls.count .flush ∧
      ∀ check ∈ ((⟨register, crc, .start frame⟩ : Boundary).hearAll order calls).2.filterMap
        Event.crcCheck?, check.1 = check.2 := by
  induction calls generalizing register crc frame with
  | nil => exact ⟨rfl, fun _ hcheck => absurd hcheck List.not_mem_nil⟩
  | cons call calls ih =>
      have hcall := h call List.mem_cons_self
      obtain ⟨hlength, hchecks⟩ :=
        ih (fun later hlater => h later (List.mem_cons_of_mem _ hlater))
          (call.registerAfter register) (call.crcAfter crc) (call.frameAfter order frame)
      rw [hearAll, hear_framed hcall]
      simp only [List.filterMap_append, Writer.Call.eventsAt_crcChecks]
      by_cases hflush : call = .flush
      · subst hflush
        rw [if_pos rfl, List.length_append, hlength, List.count_cons_self]
        refine ⟨Nat.add_comm _ _, ?_⟩
        intro check hcheck
        rcases List.mem_append.1 hcheck with hcheck | hcheck
        · rw [List.mem_singleton.1 hcheck]
        · exact hchecks check hcheck
      · rw [if_neg hflush, List.nil_append, List.count_cons_of_ne hflush]
        exact ⟨hlength, hchecks⟩

end Boundary

end ConfigStream
