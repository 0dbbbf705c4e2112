import ConfigStream.Proofs.Decoder.FrameWalk

/-!
# What a writer counts and a decoder checks

A writer and a decoder each keep a check sum and a register, by rules of their own. Calls are
`Orderly` if they are for whole packets, the writer's check sum is started anew where a reset
command tells a decoder to do so, and a type 2 packet goes on for the register that was addressed
last. A decoder hears such calls as they were meant: it is told the same registers and word counts,
finds every check sum that was written out to be the one it has computed itself, and ends with the
check sum that the writer ends with (`Orderly.decode_agrees`).
-/

namespace ConfigStream

/-! ## Announcements and checks in what packets tell -/

/-- Frame data announces no payload and checks no check sum. -/
theorem Event.none_of_isFrameData {event : Event} (h : event.isFrameData = true) :
    event.announcement? = none ∧ event.crcCheck? = none := by
  cases event with
  | bit => exact ⟨rfl, rfl⟩
  | diagnostic found => cases found <;> first | exact ⟨rfl, rfl⟩ | cases h

namespace Decoder

variable {order : FrameOrder} {register : Register} {long : Bool} {event : Event}

/-- Payload announces no other payload and checks no check sum. -/
theorem none_of_mem_payloadEvents {cursor : FrameCursor} {words : List UInt32}
    (h : event ∈ payloadEvents order register long cursor words) :
    event.announcement? = none ∧ event.crcCheck? = none := by
  unfold payloadEvents at h
  split at h
  · exact Event.none_of_isFrameData (FrameCursor.isFrameData_of_mem_takeAll h)
  · obtain ⟨word, -, hword⟩ := List.mem_flatMap.1 h
    unfold wordEvents at hword
    split_ifs at hword <;> simp only [List.mem_singleton, List.not_mem_nil] at hword <;>
      exact hword ▸ ⟨rfl, rfl⟩

/-- The end of a packet announces no payload, and it checks a check sum only where one was
written. -/
theorem none_of_mem_endEvents {last : Option UInt32} {crc : UInt32}
    (h : event ∈ endEvents register long last crc) :
    event.announcement? = none ∧ (long = true ∨ register ≠ .crc → event.crcCheck? = none) := by
  unfold endEvents at h
  cases last <;> split_ifs at h <;> simp_all [Event.announcement?, Event.crcCheck?]

end Decoder

namespace Boundary

variable {order : FrameOrder}

variable (order) in
/-- Payload and the end of its packet announce nothing. -/
theorem announcements_told (boundary : Boundary) (long : Bool) (words : List UInt32) :
    (boundary.told order long words).filterMap Event.announcement? = [] := by
  apply List.filterMap_eq_nil_iff.2
  intro event hevent
  rcases List.mem_append.1 hevent with hevent | hevent
  · exact (Decoder.none_of_mem_payloadEvents hevent).1
  · exact (Decoder.none_of_mem_endEvents hevent).1

variable (order) in
/-- Only a write of the check sum is checked. -/
theorem crcChecks_told (boundary : Boundary) {long : Bool} (words : List UInt32)
    (h : long = true ∨ boundary.register ≠ .crc) :
    (boundary.told order long words).filterMap Event.crcCheck? = [] := by
  apply List.filterMap_eq_nil_iff.2
  intro event hevent
  rcases List.mem_append.1 hevent with hevent | hevent
  · exact (Decoder.none_of_mem_payloadEvents hevent).2
  · exact (Decoder.none_of_mem_endEvents hevent).2 h

variable (order) in
/-- What a write tells after its header. -/
theorem takeAll_write (boundary : Boundary) (register : Register) (words : List UInt32) :
    ∃ lengths, (∀ event ∈ lengths, event.announcement? = none ∧ event.crcCheck? = none) ∧
      (boundary.takeAll order [.write register words]).2 =
        .diagnostic (.write register words.length) ::
          (lengths ++ ({ boundary with register } : Boundary).told order false words) := by
  refine ⟨_, ?_, List.append_nil _⟩
  intro event hevent
  split at hevent
  · obtain rfl := List.mem_singleton.1 hevent
    exact ⟨rfl, rfl⟩
  · cases hevent

/-- A write announces its payload. -/
theorem announcements_write (boundary : Boundary) (register : Register) (words : List UInt32) :
    (boundary.takeAll order [.write register words]).2.filterMap Event.announcement? =
      [.write register words.length] := by
  obtain ⟨lengths, hlengths, hevents⟩ := takeAll_write order boundary register words
  have hnone : lengths.filterMap Event.announcement? = [] :=
    List.filterMap_eq_nil_iff.2 fun event hevent => (hlengths event hevent).1
  rw [hevents, List.filterMap_cons_some (f := Event.announcement?) rfl, List.filterMap_append,
    hnone, announcements_told]
  rfl

/-- A write to a register other than the check sum checks none. -/
theorem crcChecks_write (boundary : Boundary) {register : Register} (words : List UInt32)
    (h : register ≠ .crc) :
    (boundary.takeAll order [.write register words]).2.filterMap Event.crcCheck? = [] := by
  obtain ⟨lengths, hlengths, hevents⟩ := takeAll_write order boundary register words
  have hnone : lengths.filterMap Event.crcCheck? = [] :=
    List.filterMap_eq_nil_iff.2 fun event hevent => (hlengths event hevent).2
  rw [hevents, List.filterMap_cons_none rfl, List.filterMap_append, hnone, List.nil_append]
  exact crcChecks_told order { boundary with register } words (.inr h)

end Boundary

/-! ## Calls and the writer that is asked -/

namespace Writer

namespace Call

/-- Whether a call writes packets that do nothing. -/
def isIdle : Call → Bool
  | .nop => true
  | .nops count => count != 0
  | _ => false

/-- The payload that a call announces, if a type 2 packet goes on for the given register. -/
def announcements (register : Register) : Call → List Diagnostic
  | .short _ target words => [.write target words.length]
  | .long words => [.continued register words.length]
  | .register target _ => [.write target 1]
  | .command _ => [.write .cmd 1]
  | .flush => [.write .crc 1]
  | .raw _ | .field .. | .word _ | .payload _ | .nop | .nops _ | .resetCrc => []

end Call

/-- Calls, each with the writer that is asked to do it. -/
def asked (writer : Writer) : List Call → List (Writer × Call)
  | [] => []
  | call :: calls => (writer, call) :: (writer.after call).asked calls

/-- The payload that calls announce, each for the register that its writer counts it for. -/
def announced (writer : Writer) (calls : List Call) : List Diagnostic :=
  (writer.asked calls).flatMap fun (asked, call) => call.announcements asked.register

/-- The check sums that calls write out. -/
def flushed (writer : Writer) (calls : List Call) : List UInt32 :=
  (writer.asked calls).filterMap fun (asked, call) => if call = .flush then some asked.crc else none

@[simp]
theorem announced_cons (writer : Writer) (call : Call) (calls : List Call) :
    writer.announced (call :: calls) =
      call.announcements writer.register ++ (writer.after call).announced calls := rfl

@[simp]
theorem flushed_cons (writer : Writer) (call : Call) (calls : List Call) :
    writer.flushed (call :: calls) =
      (if call = .flush then [writer.crc] else []) ++ (writer.after call).flushed calls := by
  by_cases hflush : call = .flush <;> simp [flushed, asked, hflush]

end Writer

namespace Boundary

variable {order : FrameOrder}

/-- A call is heard to announce its payload. -/
theorem announcements_hear {call : Writer.Call} (h : call.IsWhole) (boundary : Boundary) :
    (boundary.hear order call).2.filterMap Event.announcement? =
      call.announcements boundary.register := by
  cases call with
  | short opcode target words => exact announcements_write boundary target words
  | long words =>
      have htold := announcements_told order boundary true words
      simp only [hear, Writer.Call.packets, takeAll, take, List.append_nil]
      rw [List.filterMap_cons_some (f := Event.announcement?) rfl, htold]
      rfl
  | nop => rfl
  | nops count =>
      rw [hear, Writer.Call.packets, takeAll_replicate_nop, List.filterMap_eq_nil_iff.2]
      · rfl
      · exact fun event hevent => (List.eq_of_mem_replicate hevent) ▸ rfl
  | register target value => exact announcements_write boundary target [value]
  | command issued => exact announcements_write boundary .cmd [issued.raw]
  | flush => exact announcements_write boundary .crc [boundary.crc]
  | raw | field | word | payload | resetCrc => cases h

/-- A call is heard to write out the check sum that has been computed, or none. -/
theorem crcChecks_hear {call : Writer.Call} (h : call.IsWhole) (boundary : Boundary) :
    (boundary.hear order call).2.filterMap Event.crcCheck? =
      if call = .flush then [(boundary.crc, boundary.crc)] else [] := by
  cases call with
  | short opcode target words => exact crcChecks_write boundary words h.2.1
  | long words =>
      have htold := crcChecks_told order boundary words (.inl rfl)
      simp only [hear, Writer.Call.packets, takeAll, take, List.append_nil]
      rw [List.filterMap_cons_none rfl, htold]
      rfl
  | nop => rfl
  | nops count =>
      rw [hear, Writer.Call.packets, takeAll_replicate_nop, List.filterMap_eq_nil_iff.2]
      · rfl
      · exact fun event hevent => (List.eq_of_mem_replicate hevent) ▸ rfl
  | register target value => exact crcChecks_write boundary [value] h.1
  | command issued => exact crcChecks_write boundary [issued.raw] (by simp)
  | flush =>
      simp only [hear, Writer.Call.packets, takeAll, take_crc]
      rfl
  | raw | field | word | payload | resetCrc => cases h

end Boundary

/-! ## Orderly calls -/

namespace Writer

/-- The calls since the last one that addresses a register, latest first. -/
def sinceAddressed (calls : List Call) : List Call :=
  calls.reverse.takeWhile fun call => !call.isAddressing

/-- Whether a type 2 packet may follow calls: no packet that does nothing has been written since a
register was addressed last, if one was addressed at all. -/
def mayContinue (calls : List Call) : Bool :=
  !calls.any Call.isAddressing || (sinceAddressed calls).all fun call => !call.isIdle

/-- Calls for whole packets, with a reset of the writer's check sum right after each write that
resets the one of a decoder and nowhere else, and with type 2 packets only where they may follow. -/
structure Orderly (calls : List Call) : Prop where
  whole : ∀ call ∈ calls, call.IsWhole ∨ call = .resetCrc
  first : calls.head? ≠ some .resetCrc
  resets : ∀ index, (h : index < calls.length) →
    (calls[index].Resets ↔ calls[index + 1]? = some .resetCrc)
  longs : ∀ index, (h : index < calls.length) → calls[index].isLong = true →
    mayContinue (calls.take index) = true

instance (calls : List Call) : Decidable (Orderly calls) :=
  decidable_of_iff
    ((∀ call ∈ calls, call.IsWhole ∨ call = .resetCrc) ∧ calls.head? ≠ some .resetCrc ∧
      (∀ index, (h : index < calls.length) →
        (calls[index].Resets ↔ calls[index + 1]? = some .resetCrc)) ∧
      ∀ index, (h : index < calls.length) → calls[index].isLong = true →
        mayContinue (calls.take index) = true)
    ⟨fun h => ⟨h.1, h.2.1, h.2.2.1, h.2.2.2⟩, fun h => ⟨h.whole, h.first, h.resets, h.longs⟩⟩

theorem mayContinue_append (calls : List Call) (call : Call) :
    mayContinue (calls ++ [call]) =
      if call.isAddressing then true
      else if call.isIdle then !calls.any Call.isAddressing
      else mayContinue calls := by
  cases haddressing : call.isAddressing with
  | true => simp [mayContinue, sinceAddressed, haddressing]
  | false =>
      cases hidle : call.isIdle with
      | true => simp [mayContinue, sinceAddressed, haddressing, hidle]
      | false => simp [mayContinue, sinceAddressed, haddressing, hidle]

namespace Call

variable {call : Call}

/-- After a whole call both sides count payload for the same register if it addresses one, or if
they did before and it is not idle. -/
theorem IsWhole.addresses_eq (h : call.IsWhole) (addressed : Bool) :
    call.addresses addressed = (call.isAddressing || (addressed && !call.isIdle)) := by
  cases call with
  | short opcode target words => simp [addresses, isAddressing, h.2.2.2]
  | long | nop | register | command | flush => simp [addresses, isAddressing, isIdle]
  | nops count => simp [addresses, isAddressing, isIdle, bne]
  | raw | field | word | payload | resetCrc => cases h

theorem IsWhole.isAddressing_of_resets (h : call.IsWhole) (hresets : call.Resets) :
    call.isAddressing = true := by
  cases call with
  | short opcode target words => simp [isAddressing, h.2.2.2]
  | register | command => rfl
  | long | nop | nops | flush | raw | field | word | payload | resetCrc => cases hresets

/-- Only a type 2 packet announces its payload for a register that it does not name. -/
theorem announcements_eq (h : call.isLong = false) (register other : Register) :
    call.announcements register = call.announcements other := by
  cases call with
  | long => cases h
  | _ => rfl

end Call

/-- Where payload is counted for the check sum register, a call that addresses no register leaves it
at that. -/
theorem register_perform {call : Call} {writer next : Writer} (h : call.IsWhole)
    (haddressing : call.isAddressing = false) (hregister : writer.register = .crc)
    (hnext : writer.perform call = .ok next) : next.register = .crc := by
  have hnops (count : Nat) {writer : Writer} (hregister : writer.register = .crc) :
      (writer.nops count).register = .crc := by
    induction count generalizing writer with
    | zero => exact hregister
    | succ count ih => exact ih rfl
  cases call with
  | long words =>
      obtain rfl : _ = next := Except.ok.inj hnext
      exact (register_payload (writer.word _) words).trans hregister
  | nop =>
      obtain rfl : _ = next := Except.ok.inj hnext
      rfl
  | nops count =>
      obtain rfl : _ = next := Except.ok.inj hnext
      exact hnops count hregister
  | short opcode target words => simp [Call.isAddressing, h.2.2.2] at haddressing
  | register | command | flush => cases haddressing
  | raw | field | word | payload | resetCrc => cases h

end Writer

/-- A call that addresses no register leaves the register of a decoder. -/
theorem Boundary.register_hear {order : FrameOrder} {call : Writer.Call} (h : call.IsWhole)
    (haddressing : call.isAddressing = false) (boundary : Boundary) :
    (boundary.hear order call).1.register = boundary.register := by
  cases call with
  | long | nop => rfl
  | nops count => rw [hear, Writer.Call.packets, takeAll_replicate_nop]
  | short opcode target words => simp [Writer.Call.isAddressing, h.2.2.2] at haddressing
  | register | command | flush => cases haddressing
  | raw | field | word | payload | resetCrc => cases h

/-! ## Where writer and decoder stand -/

/-- Where writer and decoder stand after calls: they are in step, and they count payload for the
same register where a type 2 packet may follow. Before a register has been addressed this is the
check sum register. -/
structure StandAfter (calls : List Writer.Call) (writer : Writer) (boundary : Boundary) : Prop where
  inStep : InStep writer (Writer.mayContinue calls) boundary
  unaddressed : calls.any Writer.Call.isAddressing = false →
    writer.register = .crc ∧ boundary.register = .crc

namespace StandAfter

variable {order : FrameOrder} {writer next : Writer} {boundary : Boundary} {call : Writer.Call}
  {front : List Writer.Call}

/-- Before the first call, both count for the check sum register. -/
theorem nil (cursor : FrameCursor) : StandAfter [] {} ⟨.crc, 0, cursor⟩ :=
  ⟨⟨rfl, fun _ => rfl⟩, fun _ => ⟨rfl, rfl⟩⟩

/-- One more whole call, unless it resets the check sum. -/
theorem perform (h : StandAfter front writer boundary) (hwhole : call.IsWhole)
    (hlong : call.isLong = true → Writer.mayContinue front = true) (hreset : ¬ call.Resets)
    (hnext : writer.perform call = .ok next) :
    StandAfter (front ++ [call]) next (boundary.hear order call).1 := by
  have hstep : InStep next _ (boundary.hear order call).1 :=
    h.inStep.perform hwhole hlong hreset hnext
  have hunaddressed : (front ++ [call]).any Writer.Call.isAddressing = false →
      next.register = .crc ∧ (boundary.hear order call).1.register = .crc := by
    intro hnone
    rw [List.any_append, Bool.or_eq_false_iff] at hnone
    have hcall : call.isAddressing = false := by simpa using hnone.2
    obtain ⟨hwriter, hboundary⟩ := h.unaddressed hnone.1
    exact ⟨Writer.register_perform hwhole hcall hwriter hnext,
      (Boundary.register_hear hwhole hcall boundary).trans hboundary⟩
  refine ⟨⟨hstep.crc_eq, fun hcontinue => ?_⟩, hunaddressed⟩
  rw [Writer.mayContinue_append] at hcontinue
  cases haddressing : call.isAddressing with
  | true => exact hstep.register_eq (by simp [hwhole.addresses_eq, haddressing])
  | false =>
      cases hidle : call.isIdle with
      | true =>
          -- An idle call is in order only before a register has been addressed.
          have hnone : front.any Writer.Call.isAddressing = false := by
            simpa [haddressing, hidle] using hcontinue
          obtain ⟨hwriter, hboundary⟩ := hunaddressed (by simp [hnone, haddressing])
          exact hboundary.trans hwriter.symm
      | false =>
          have hfront : Writer.mayContinue front = true := by
            simpa [haddressing, hidle] using hcontinue
          exact hstep.register_eq (by simp [hwhole.addresses_eq, hfront, hidle])

/-- One more whole call that resets the check sum, and the reset of the writer's. -/
theorem perform_reset (hwhole : call.IsWhole) (hreset : call.Resets)
    (hnext : writer.perform call = .ok next) :
    StandAfter (front ++ [call, .resetCrc]) next.resetCrc (boundary.hear order call).1 := by
  have hstep : InStep next.resetCrc true (boundary.hear order call).1 :=
    .perform_reset hwhole hreset hnext
  refine ⟨⟨hstep.crc_eq, fun _ => hstep.register_eq rfl⟩, fun hnone => ?_⟩
  rw [List.any_append, List.any_cons, hwhole.isAddressing_of_resets hreset, Bool.true_or,
    Bool.or_true] at hnone
  cases hnone

end StandAfter

/-! ## Whole runs -/

/-- Calls are heard, and what is heard announces the same payload and checks the same check sums as
the calls. -/
structure Agreed (order : FrameOrder) (writer : Writer) (boundary : Boundary)
    (calls : List Writer.Call) : Prop where
  heard : Heard order writer boundary calls
  announcements : (boundary.hearAll order calls).2.filterMap Event.announcement? =
    writer.announced calls
  crcChecks : (boundary.hearAll order calls).2.filterMap Event.crcCheck? =
    (writer.flushed calls).map fun crc => (crc, crc)

namespace Agreed

variable {order : FrameOrder} {writer next : Writer} {boundary : Boundary} {call : Writer.Call}
  {calls : List Writer.Call}

theorem nil (hcrc : boundary.crc = writer.crc) : Agreed order writer boundary [] :=
  ⟨⟨writer, [], rfl, (List.append_nil _).symm, hcrc, fun _ => .nil⟩, rfl, rfl⟩

/-- A whole call is heard before what follows it. -/
theorem cons (hwhole : call.IsWhole) (hcrc : boundary.crc = writer.crc)
    (hregister : call.isLong = true → boundary.register = writer.register)
    (hnext : writer.perform call = .ok next)
    (h : Agreed order next (boundary.hear order call).1 calls) :
    Agreed order writer boundary (call :: calls) := by
  have hafter := Writer.after_eq hnext
  refine ⟨.cons hwhole hcrc hnext h.heard, ?_, ?_⟩
  · have hsame : call.announcements boundary.register = call.announcements writer.register := by
      cases hlong : call.isLong with
      | true => rw [hregister hlong]
      | false => exact Writer.Call.announcements_eq hlong _ _
    rw [Boundary.hearAll, List.filterMap_append, Boundary.announcements_hear hwhole, hsame,
      h.announcements, Writer.announced_cons, hafter]
  · rw [Boundary.hearAll, List.filterMap_append, Boundary.crcChecks_hear hwhole, h.crcChecks,
      Writer.flushed_cons, hafter, hcrc, List.map_append]
    split <;> rfl

/-- A reset of the writer's check sum is not heard. -/
theorem resetCrc (h : Agreed order writer.resetCrc boundary calls) :
    Agreed order writer boundary (.resetCrc :: calls) :=
  ⟨.resetCrc h.heard, h.announcements, h.crcChecks⟩

end Agreed

namespace Writer.Orderly

variable {order : FrameOrder}

/-- Orderly calls go on with a whole call unless the call before it resets the check sum. -/
theorem isWhole {front calls : List Call} {call : Call} (h : Orderly (front ++ call :: calls))
    (hsettled : ∀ last, front.getLast? = some last → ¬ last.Resets) : call.IsWhole := by
  rcases h.whole call (by simp) with hwhole | rfl
  · exact hwhole
  · rcases List.eq_nil_or_concat' front with rfl | ⟨front, last, rfl⟩
    · exact absurd rfl h.first
    · have hplace : front.length < (front ++ [last] ++ .resetCrc :: calls).length := by simp
      have hlast : (front ++ [last] ++ .resetCrc :: calls)[front.length] = last := by simp
      have hnext : (front ++ [last] ++ .resetCrc :: calls)[front.length + 1]? = some .resetCrc := by
        simp
      have hresets := (h.resets front.length hplace).2 hnext
      rw [hlast] at hresets
      exact absurd hresets (hsettled last (by simp))

/-- The calls that are left of orderly ones are heard by a decoder that stands where the calls
before them have left it. -/
theorem run {front calls : List Call} {writer : Writer} {boundary : Boundary}
    (h : Orderly (front ++ calls)) (hstand : StandAfter front writer boundary)
    (hsettled : ∀ call, front.getLast? = some call → ¬ call.Resets) :
    Agreed order writer boundary calls := by
  -- A call that resets is taken together with the reset of the writer that follows it.
  induction hlength : calls.length using Nat.strong_induction_on
    generalizing front calls writer boundary with
  | _ length ih =>
      subst hlength
      cases calls with
      | nil => exact .nil hstand.inStep.crc_eq
      | cons call calls =>
          have hplace : front.length < (front ++ call :: calls).length := by simp
          have hcall : (front ++ call :: calls)[front.length] = call := by simp
          have hresets : call.Resets ↔ calls.head? = some .resetCrc := by
            have hindex := h.resets front.length hplace
            rw [hcall] at hindex
            simpa [List.getElem?_append_right, List.head?_eq_getElem?] using hindex
          have hwhole : call.IsWhole := h.isWhole hsettled
          have hlong : call.isLong = true → mayContinue front = true := by
            intro hlong
            have hindex := h.longs front.length hplace (by rwa [hcall])
            rwa [List.take_left] at hindex
          obtain ⟨next, hnext, -⟩ := perform_whole hwhole writer
          have hregister : call.isLong = true → boundary.register = writer.register :=
            fun htrue => hstand.inStep.register_eq (hlong htrue)
          refine .cons hwhole hstand.inStep.crc_eq hregister hnext ?_
          by_cases hreset : call.Resets
          · obtain ⟨later, rfl⟩ : ∃ later, calls = .resetCrc :: later :=
              List.head?_eq_some_iff.1 (hresets.1 hreset)
            have hrest : Orderly ((front ++ [call, .resetCrc]) ++ later) := by simpa using h
            have hlast : ∀ last, (front ++ [call, .resetCrc]).getLast? = some last →
                ¬ last.Resets := by
              intro last heq
              obtain rfl : Call.resetCrc = last := by simpa using heq
              exact id
            have hless : later.length < (call :: .resetCrc :: later).length :=
              Nat.lt_add_of_pos_right (n := later.length) (by decide : 0 < 2)
            exact .resetCrc
              (ih later.length hless hrest (.perform_reset hwhole hreset hnext) hlast rfl)
          · have hrest : Orderly ((front ++ [call]) ++ calls) := by simpa using h
            exact ih calls.length (Nat.lt_succ_self _) hrest
              (hstand.perform hwhole hlong hreset hnext) (by simpa using hreset) rfl

/-- Orderly calls succeed, and under any order a decoder makes the same of what they have written,
from a sync word on. It announces the same payload for the same registers, it checks every check sum
that was written out and computes the same, and it ends with the check sum of the writer. -/
theorem decode_agrees {calls : List Call} (h : Orderly calls) :
    ∃ last, ({} : Writer).run calls = .ok last ∧
      ∀ order,
        ∃ report, decode order (Word.toBytes syncWord ++ last.bytes.toList) =
            .ok report ∧
          report.announcements = ({} : Writer).announced calls ∧
          report.crcChecks = (({} : Writer).flushed calls).map (fun crc => (crc, crc)) ∧
          (Decoder.after order (Word.toBytes syncWord ++ last.bytes.toList)).1.crc = last.crc := by
  have hagreed (order : FrameOrder) : Agreed order {} ⟨.crc, 0, .start 0⟩ calls :=
    (show Orderly ([] ++ calls) from h).run (.nil (.start 0)) nofun
  obtain ⟨last, -, hrun, -⟩ := (hagreed .empty).heard
  refine ⟨last, hrun, fun order => ?_⟩
  obtain ⟨other, bytes, hother, hbytes, hcrc, hreads⟩ := (hagreed order).heard
  obtain rfl : last = other := Except.ok.inj (hrun.symm.trans hother)
  obtain rfl : last.bytes.toList = bytes := hbytes
  -- The sync word takes the decoder to the boundary that the calls are heard from.
  have hstream := Decoder.Reads.syncWord.trans (hreads 4)
  have hdecode : decode order (Word.toBytes syncWord ++ last.bytes.toList) =
      .ok ⟨_ ++ []⟩ := hstream.decode_eq
  rw [List.append_nil] at hdecode
  refine ⟨_, hdecode, ?_, ?_, ?_⟩
  · exact (List.filterMap_append ..).trans (congrArg (_ ++ ·) (hagreed order).announcements)
  · exact (List.filterMap_append ..).trans (congrArg (_ ++ ·) (hagreed order).crcChecks)
  · rw [hstream.after_eq]
    exact hcrc

/-- A run with a type 2 packet before any register is addressed, one for an unnamed register, and
one for frame data after a reset. -/
theorem decode_agrees_mixed :
    let calls : List Call :=
      [.nop, .long [5], .register ⟨0x3FFF⟩ 9, .long [1, 2], .command .rcrc, .resetCrc, .nops 2,
        .short .write .fdri [3], .long [4, 4], .flush, .register .mask 6]
    Orderly calls ∧
      ∃ last, ({} : Writer).run calls = .ok last ∧
        ∀ order,
          ∃ report, decode order (Word.toBytes syncWord ++ last.bytes.toList) = .ok report ∧
            report.announcements =
              [.continued .crc 1, .write ⟨0x3FFF⟩ 1, .continued ⟨0x3FFF⟩ 2, .write .cmd 1,
                .write .fdri 1, .continued .fdri 2, .write .crc 1, .write .mask 1] ∧
            report.crcChecks = [(0x3D52EF44, 0x3D52EF44)] ∧
            (Decoder.after order (Word.toBytes syncWord ++ last.bytes.toList)).1.crc =
              last.crc := by
  intro calls
  have horderly : Orderly calls := by decide +kernel
  obtain ⟨last, hrun, hdecode⟩ := horderly.decode_agrees
  have hannounced : ({} : Writer).announced calls =
      [.continued .crc 1, .write ⟨0x3FFF⟩ 1, .continued ⟨0x3FFF⟩ 2, .write .cmd 1,
        .write .fdri 1, .continued .fdri 2, .write .crc 1, .write .mask 1] := by
    decide +kernel
  have hflushed : ({} : Writer).flushed calls = [0x3D52EF44] := by decide +kernel
  rw [hannounced, hflushed] at hdecode
  exact ⟨horderly, last, hrun, hdecode⟩

end Writer.Orderly

end ConfigStream
