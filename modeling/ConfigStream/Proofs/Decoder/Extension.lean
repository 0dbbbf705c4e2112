import ConfigStream.Proofs.Decoder.Accounting

/-!
# Streams that go on

A decoder never takes back what it has told: whatever comes after the first bytes of a stream, the
events of these bytes stay (`Decoder.Tells`). So a stream that is decoded without losing sync may be
made longer, and its report is the beginning of the longer one, unless the longer stream ends inside
a payload (`decode_append`). After a header of unknown type nothing more is told at all.
-/

namespace ConfigStream

/-- Whether an event tells that a stream is not read further. -/
def Event.isStop : Event → Bool
  | .diagnostic (.unknownHeader ..) => true
  | _ => false

theorem Event.isStop_of_isTurn {event : Event} (h : event.isTurn = false) :
    event.isStop = false := by
  match event, h with
  | .bit _, _ => rfl
  | .diagnostic found, h => cases found <;> first | rfl | cases h

namespace Decoder

/-- A decoder that has met sync, and that has stopped if one of the events is a stop. -/
structure IsSynced (decoder : Decoder) (events : List Event) : Prop where
  met : decoder.phase ≠ .unsynced
  stopped : ∀ event ∈ events, event.isStop = true → decoder.phase = .stopped

variable {order : FrameOrder} {decoder next : Decoder} {early late events : List Event}

theorem IsSynced.of_forall (hmet : decoder.phase ≠ .unsynced)
    (h : ∀ event ∈ events, event.isStop = false) : decoder.IsSynced events :=
  ⟨hmet, fun event hevent hstop => absurd (h event hevent) (by simp [hstop])⟩

/-! ## Words -/

variable (order) in
/-- At the start of a packet a decoder goes on to its payload or to the next header. -/
theorem beginPacket_phase (boundary : Boundary) (position : Nat) (long : Bool) (words : Nat) :
    ((boundary.decoder position).beginPacket order long words).1.phase ≠ .unsynced ∧
      ∀ event ∈ ((boundary.decoder position).beginPacket order long words).2,
        event.isStop = false := by
  cases words with
  | zero =>
      have hend : (boundary.decoder position).endPacket order long none = _ :=
        boundary.endPacket_decoder long none position .header
      rw [beginPacket, hend]
      exact ⟨Phase.noConfusion,
        fun event hevent => Event.isStop_of_isTurn (isQuiet_of_mem_endEvents hevent).1⟩
  | succ further => exact ⟨Phase.noConfusion, fun event hevent => absurd hevent List.not_mem_nil⟩

variable (order) in
/-- Only a header of unknown type is a stop, and it stops the decoder. -/
theorem headerWord_isSynced (boundary : Boundary) (position offset : Nat) (word : UInt32) :
    ((boundary.decoder position).headerWord order offset word).1.IsSynced
      ((boundary.decoder position).headerWord order offset word).2 := by
  have hone {decoder : Decoder} {found : Diagnostic} (hmet : decoder.phase ≠ .unsynced)
      (hfound : (Event.diagnostic found).isStop = false) :
      decoder.IsSynced [.diagnostic found] :=
    .of_forall hmet fun event hevent => List.mem_singleton.1 hevent ▸ hfound
  unfold headerWord
  split
  · exact hone Phase.noConfusion rfl
  · split
    · rename_i register words _
      obtain ⟨hmet, hevents⟩ :=
        beginPacket_phase order { boundary with register } position false words
      refine .of_forall hmet fun event hevent => ?_
      rcases List.mem_cons.1 hevent with rfl | hevent
      · rfl
      · rcases List.mem_append.1 hevent with hlength | hevent
        · exact Event.isStop_of_isTurn (Event.isQuiet_of_mem_moveLength hlength).1
        · exact hevents event hevent
    · exact hone Phase.noConfusion rfl
    · exact hone Phase.noConfusion rfl
    · rename_i words _
      obtain ⟨hmet, hevents⟩ := beginPacket_phase order boundary position true words
      exact .of_forall hmet fun event hevent =>
        (List.mem_cons.1 hevent).elim (fun hheader => hheader ▸ rfl) (hevents event)
    · exact ⟨Phase.noConfusion, fun _ _ _ => rfl⟩

variable (order) in
/-- Whatever a decoder that has met sync waits for, the same holds of every word. -/
theorem takeWord_isSynced (boundary : Boundary) (position offset : Nat) {phase : Phase}
    (hphase : phase ≠ .unsynced) (word : UInt32) :
    ({ boundary.decoder position with phase }.takeWord order offset word).1.IsSynced
      ({ boundary.decoder position with phase }.takeWord order offset word).2 := by
  cases phase with
  | header => exact headerWord_isSynced order boundary position offset word
  | payload long further before =>
      cases further with
      | zero =>
          rw [takeWord_last]
          exact .of_forall Phase.noConfusion fun event hevent =>
            Event.isStop_of_isTurn (Boundary.isQuiet_of_mem_told hevent).1
      | succ further =>
          rw [takeWord_further]
          exact .of_forall Phase.noConfusion fun event hevent =>
            Event.isStop_of_isTurn (isQuiet_of_mem_payloadEvents hevent).1
  | unsynced => exact absurd rfl hphase
  | desynced | stopped =>
      exact .of_forall Phase.noConfusion fun event hevent => absurd hevent List.not_mem_nil

/-! ## Bytes -/

/-- What the phase says of the events so far: before sync there are none, and if one of them is a
stop the decoder has stopped. -/
structure Tells (decoder : Decoder) (events : List Event) : Prop where
  silent : decoder.phase = .unsynced ↔ events = []
  stopped : ∀ event ∈ events, event.isStop = true → decoder.phase = .stopped

/-- A decoder that has met sync goes on with what it has told. -/
theorem Tells.append (h : decoder.Tells early) (hmet : decoder.phase ≠ .unsynced)
    (hstops : decoder.phase = .stopped → next.phase = .stopped) (hnext : next.IsSynced late) :
    next.Tells (early ++ late) where
  silent := by
    have hearly : early ≠ [] := mt h.silent.2 hmet
    simp [hearly, hnext.met]
  stopped := fun event hevent hstop =>
    (List.mem_append.1 hevent).elim (fun hearly => hstops (h.stopped event hearly hstop))
      fun hlate => hnext.stopped event hlate hstop

/-- A byte keeps the phase and the events in agreement. -/
theorem Tells.feed (h : decoder.Tells events) (hpending : decoder.pending.length ≤ 3)
    (byte : UInt8) :
    (decoder.feed order byte).1.Tells (events ++ (decoder.feed order byte).2) := by
  by_cases hshort : decoder.pending.length < 3
  · rw [feed_pending hshort, List.append_nil]
    exact ⟨h.silent, h.stopped⟩
  · obtain ⟨a, b, c, hthree⟩ := List.length_eq_three.1 (show decoder.pending.length = 3 by omega)
    cases hsearching : decoder.phase.isSearching with
    | true =>
        have hgoing : decoder.phase ≠ .stopped := by
          intro hstopped
          rw [hstopped] at hsearching
          cases hsearching
        rw [feed_window hthree hsearching, takeWindow]
        split
        · refine ⟨by simp, fun event hevent hstop => ?_⟩
          rcases List.mem_append.1 hevent with hearly | hsync
          · exact absurd (h.stopped event hearly hstop) hgoing
          · obtain rfl := List.mem_singleton.1 hsync
            cases hstop
        · rw [List.append_nil]
          exact ⟨h.silent, h.stopped⟩
    | false =>
        obtain ⟨phase, position, pending, register, crc, cursor⟩ := decoder
        obtain rfl : pending = [a, b, c] := hthree
        have hmet : phase ≠ .unsynced := by
          rintro rfl
          cases hsearching
        have hfeed : Decoder.feed order ⟨phase, position, [a, b, c], register, crc, cursor⟩ byte =
            _ :=
          feed_word hsearching
        have hword := takeWord_isSynced order ⟨register, crc, cursor⟩ (position + 4) position hmet
          (Word.ofBytes a b c byte)
        refine h.append hmet (fun hstopped => ?_) (hfeed ▸ hword)
        obtain rfl : phase = .stopped := hstopped
        rfl

/-- After any first bytes of a stream, the phase and the events agree. -/
theorem after_tells (order : FrameOrder) (bytes : List UInt8) :
    (after order bytes).1.Tells (after order bytes).2 := by
  induction bytes using List.reverseRecOn with
  | nil => exact ⟨⟨fun _ => rfl, fun _ => rfl⟩, fun _ hevent => absurd hevent List.not_mem_nil⟩
  | append_singleton bytes byte ih =>
      rw [after_append]
      exact ih.feed (after_position order bytes).1 byte

/-! ## Ends -/

/-- A stream in which sync was met is decoded, or it ends inside a payload. -/
theorem finish_of_met (h : decoder.phase ≠ .unsynced) :
    (∃ offset, decoder.finish = .error (.endInPayload offset)) ∨
      ∃ ending, decoder.finish = .ok ending := by
  unfold finish
  split
  · contradiction
  · exact .inr ⟨_, rfl⟩
  · exact .inr ⟨_, rfl⟩
  · exact .inr ⟨_, rfl⟩
  · exact .inl ⟨_, rfl⟩

/-- In a stream that is decoded sync was met, and all that its end may tell is that sync was
lost. -/
theorem met_of_finish {ending : List Event} (h : decoder.finish = .ok ending) :
    decoder.phase ≠ .unsynced ∧
      (ending = [] ∨ ∃ offset, ending = [.diagnostic (.noSyncFrom offset)]) := by
  unfold finish at h
  split at h
  · cases h
  · rename_i offset hphase
    exact ⟨by simp [hphase], .inr ⟨offset, (Except.ok.inj h).symm⟩⟩
  · rename_i hphase
    exact ⟨by simp [hphase], .inl (Except.ok.inj h).symm⟩
  · rename_i hphase
    exact ⟨by simp [hphase], .inl (Except.ok.inj h).symm⟩
  · cases h

/-- What is told of a stream that is decoded without losing sync is what was told of its bytes. -/
theorem after_of_decode {bytes : List UInt8} {report : Report}
    (h : decode order bytes = .ok report)
    (hsync : ∀ offset, report.events.getLast? ≠ some (.diagnostic (.noSyncFrom offset))) :
    (after order bytes).2 = report.events ∧ (after order bytes).1.phase ≠ .unsynced := by
  rw [(Reads.after order bytes).decode_eq] at h
  cases hfinish : (after order bytes).1.finish with
  | error fault =>
      rw [hfinish] at h
      cases h
  | ok ending =>
      rw [hfinish] at h
      obtain rfl := Except.ok.inj h
      obtain ⟨hmet, rfl | ⟨offset, rfl⟩⟩ := met_of_finish hfinish
      · exact ⟨(List.append_nil _).symm, hmet⟩
      · exact absurd List.getLast?_concat (hsync offset)

end Decoder

/-! ## Longer streams -/

/-- A stream that is decoded without losing sync may be made longer: the longer one ends inside a
payload, or its report begins with everything in the report of the first. If that ends with a header
of unknown type, the reports are the same. -/
theorem decode_append {order : FrameOrder} {bytes : List UInt8} {report : Report}
    (h : decode order bytes = .ok report)
    (hsync : ∀ offset, report.events.getLast? ≠ some (.diagnostic (.noSyncFrom offset)))
    (more : List UInt8) :
    ((∃ offset, decode order (bytes ++ more) = .error (.endInPayload offset)) ∨
      ∃ longer, decode order (bytes ++ more) = .ok longer ∧ report.events <+: longer.events) ∧
    ∀ packetType header,
      report.events.getLast? = some (.diagnostic (.unknownHeader packetType header)) →
      decode order (bytes ++ more) = .ok report := by
  have hearly := Decoder.Reads.after order bytes
  have htells := Decoder.after_tells order bytes
  obtain ⟨hevents, hmet⟩ := Decoder.after_of_decode h hsync
  rw [hevents] at hearly htells
  constructor
  · obtain ⟨late, last, hlate⟩ := Decoder.Reads.exists order (Decoder.after order bytes).1 more
    have hwhole := hearly.trans hlate
    have hlonger := Decoder.after_tells order (bytes ++ more)
    rw [hwhole.after_eq] at hlonger
    -- Something has been told by now, so the longer stream has met sync too.
    have hstill : last.phase ≠ .unsynced := fun hunsynced =>
      hmet (htells.silent.2 (List.append_eq_nil_iff.1 (hlonger.silent.1 hunsynced)).1)
    rw [hwhole.decode_eq]
    rcases Decoder.finish_of_met hstill with ⟨offset, hend⟩ | ⟨ending, hend⟩
    · exact .inl ⟨offset, congrArg _ hend⟩
    · refine .inr ⟨⟨report.events ++ late ++ ending⟩, congrArg _ hend, ?_⟩
      exact ⟨late ++ ending, (List.append_assoc ..).symm⟩
  · intro packetType header hunknown
    have hstopped := htells.stopped _ (List.mem_of_getLast? hunknown) rfl
    obtain ⟨last, hrest, hphase⟩ := @Decoder.Reads.stopped order _ hstopped more
    rw [(hearly.trans hrest).decode_eq, Decoder.finish, hphase]
    simp [Except.map]

/-- A stream that ends in the middle of a header is taken up by the bytes that complete it, and one
that ends with a header of unknown type by none. -/
theorem decode_append_partial :
    let order := FrameOrder.empty
    let bytes := [syncWord, (Header.write .far 1).encode, 0x100].flatMap Word.toBytes
    let report : Report :=
      ⟨[.diagnostic (.syncAt 0), .diagnostic (.write .far 1), .diagnostic (.moveTo 0x100)]⟩
    let stopped : Report :=
      ⟨report.events ++ [.diagnostic (.unknownHeader 7 0xE0000000)]⟩
    decode order (bytes ++ [0x30, 0x00, 0x40]) = .ok report ∧
      (∃ longer, decode order (bytes ++ [0x30, 0x00, 0x40] ++ [0x01, 0, 0, 0, 1]) = .ok longer ∧
        report.events <+: longer.events) ∧
      decode order (bytes ++ [0xE0, 0, 0, 0]) = .ok stopped ∧
      decode order (bytes ++ [0xE0, 0, 0, 0] ++ [0x01, 0, 0, 0, 1]) = .ok stopped := by
  intro order bytes report stopped
  have hpartial : decode order (bytes ++ [0x30, 0x00, 0x40]) = .ok report := by decide +kernel
  have hstopped : decode order (bytes ++ [0xE0, 0, 0, 0]) = .ok stopped := by decide +kernel
  have hpayload : ∀ offset, decode order (bytes ++ [0x30, 0x00, 0x40] ++ [0x01, 0, 0, 0, 1]) ≠
      .error (.endInPayload offset) := by
    have hok : (decode order (bytes ++ [0x30, 0x00, 0x40] ++ [0x01, 0, 0, 0, 1])).isOk = true := by
      decide +kernel
    intro offset hfault
    rw [hfault] at hok
    cases hok
  obtain ⟨hlonger, -⟩ := decode_append hpartial (fun offset => by simp [report])
    [0x01, 0, 0, 0, 1]
  obtain ⟨-, hsame⟩ := decode_append hstopped (fun offset => by simp [stopped])
    [0x01, 0, 0, 0, 1]
  exact ⟨hpartial, hlonger.resolve_left fun ⟨offset, hfault⟩ => hpayload offset hfault, hstopped,
    hsame 7 0xE0000000 (by simp [stopped])⟩

end ConfigStream
