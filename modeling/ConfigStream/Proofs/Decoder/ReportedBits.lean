import ConfigStream.Proofs.Decoder.Checked
import ConfigStream.Proofs.Report

/-!
# Reports of arbitrary streams

Nothing is assumed of a stream here. Whatever bytes a decoder is given, each word of frame data that
it takes is taken by a checked cursor too, so that no index ever leaves its range; and a report
tells of data bits only, its frames have exactly the bits that it tells of, and none of them is
empty (`decode_inBounds`).
-/

namespace ConfigStream

/-- The address is one of a data bit. -/
def BitAddress.IsData (address : BitAddress) : Prop :=
  address.InFrame ∧ Frame.isReserved address.word address.bit = false

/-- An event that, if it is a bit, is a data bit. -/
def Event.IsPlaced : Event → Prop
  | .bit address => address.IsData
  | .diagnostic _ => True

namespace Decoder

variable {order : FrameOrder} {decoder last : Decoder} {event : Event}

/-! ## What one step tells -/

theorem isPlaced_of_mem_take {cursor : FrameCursor} {data : UInt32}
    (h : event ∈ (cursor.take order data).2) : event.IsPlaced := by
  rcases FrameCursor.mem_take h with ⟨bit, hbit, rfl⟩ | ⟨observed, computed, rfl⟩
  · obtain ⟨hset, hdata⟩ := List.mem_filter.1 hbit
    exact ⟨⟨cursor.word.isLt, Word.lt_width_of_mem_setBits hset⟩, by simpa using hdata⟩
  · trivial

/-- The end of a packet tells no bit. -/
theorem isPlaced_of_mem_endPacket {long : Bool} {final : Option UInt32}
    (h : event ∈ (decoder.endPacket order long final).2) : event.IsPlaced := by
  cases event with
  | diagnostic => trivial
  | bit address =>
      unfold endPacket at h
      cases final <;> simp only at h <;> split_ifs at h <;> simp at h

theorem isPlaced_of_mem_payloadWord {long : Bool} {word : UInt32}
    (h : event ∈ (decoder.payloadWord order long word).2) : event.IsPlaced := by
  by_cases hfdri : decoder.register = .fdri
  · rw [payloadWord, if_pos hfdri] at h
    exact isPlaced_of_mem_take h
  · cases event with
    | diagnostic => trivial
    | bit address =>
        rw [payloadWord, if_neg hfdri] at h
        split_ifs at h <;> simp at h

/-- A header tells no bit, whether a packet begins with it or not. -/
theorem isPlaced_of_mem_headerWord {offset : Nat} {raw : UInt32}
    (h : event ∈ (decoder.headerWord order offset raw).2) : event.IsPlaced := by
  have hbegin {decoder : Decoder} {long : Bool} {words : Nat} {event : Event}
      (h : event ∈ (decoder.beginPacket order long words).2) : event.IsPlaced := by
    cases words with
    | zero => exact isPlaced_of_mem_endPacket h
    | succ further => cases h
  cases event with
  | diagnostic => trivial
  | bit address =>
      unfold headerWord at h
      split at h
      · simp at h
      · split at h
        · -- A write tells its header, and whatever the end of an empty packet tells.
          have hevents := (List.mem_append.1 h).resolve_left (by split <;> simp)
          exact hbegin hevents
        · simp at h
        · simp at h
        · exact hbegin ((List.mem_cons.1 h).resolve_left Event.noConfusion)
        · simp at h

theorem isPlaced_of_mem_takeWord {offset : Nat} {word : UInt32}
    (h : event ∈ (decoder.takeWord order offset word).2) : event.IsPlaced := by
  unfold takeWord at h
  cases hphase : decoder.phase with
  | header =>
      rw [hphase] at h
      exact isPlaced_of_mem_headerWord h
  | payload long further before =>
      rw [hphase] at h
      cases further with
      | zero =>
          rcases List.mem_append.1 h with h | h
          · exact isPlaced_of_mem_payloadWord h
          · exact isPlaced_of_mem_endPacket h
      | succ further => exact isPlaced_of_mem_payloadWord h
  | unsynced | desynced | stopped =>
      rw [hphase] at h
      cases h

/-- Whatever a byte completes, no bit is told but a data bit. -/
theorem isPlaced_of_mem_feed {byte : UInt8} (h : event ∈ (decoder.feed order byte).2) :
    event.IsPlaced := by
  have hwindow {word : UInt32} {later : List UInt8}
      (h : event ∈ (decoder.takeWindow word later).2) : event.IsPlaced := by
    unfold takeWindow at h
    split at h
    · obtain rfl := List.mem_singleton.1 h
      trivial
    · cases h
  unfold Decoder.feed at h
  split at h
  · split at h
    · exact hwindow h
    · exact hwindow h
    · exact isPlaced_of_mem_takeWord h
  · cases h

/-- The end of a stream tells no bit. -/
theorem bit?_of_mem_finish {ending : List Event} (hend : decoder.finish = .ok ending)
    (h : event ∈ ending) : event.bit? = none := by
  unfold finish at hend
  split at hend
  · cases hend
  · obtain rfl := Except.ok.inj hend
    obtain rfl := List.mem_singleton.1 h
    rfl
  · obtain rfl := Except.ok.inj hend
    cases h
  · obtain rfl := Except.ok.inj hend
    cases h
  · cases hend

/-- What every byte of a sequence keeps to, the whole sequence keeps to. -/
theorem isPlaced_of_mem_feedAll {before : Decoder × Array Event} {bytes : List UInt8}
    (hbefore : ∀ event ∈ before.2, event.IsPlaced) :
    ∀ event ∈ (feedAll order before bytes).2, event.IsPlaced := by
  induction bytes generalizing before with
  | nil => exact hbefore
  | cons byte bytes ih =>
      refine @ih ((before.1.feed order byte).1, before.2 ++ (before.1.feed order byte).2) ?_
      intro event hevent
      rw [← Array.mem_toList_iff, Array.toList_appendList, List.mem_append,
        Array.mem_toList_iff] at hevent
      exact hevent.elim (hbefore event) isPlaced_of_mem_feed

/-! ## Words of frame data -/

/-- The word of frame data that a byte completes, if it completes one. -/
def frameWord? (decoder : Decoder) (byte : UInt8) : Option UInt32 :=
  match decoder.pending, decoder.phase with
  | [a, b, c], .payload .. =>
    if decoder.register = .fdri then some (Word.ofBytes a b c byte) else none
  | _, _ => none

/-- A packet of frame data ends where its last word has left the frame. -/
theorem endPacket_frameData (h : decoder.register = .fdri) (long : Bool) (final : Option UInt32) :
    (decoder.endPacket order long final).1.cursor = decoder.cursor ∧
      (decoder.endPacket order long final).2 = [] := by
  cases long <;> simp [endPacket, h]

/-- A word of frame data is taken by the cursor, whether its packet ends with it or not. -/
theorem takeWord_frameData {long : Bool} {further : Nat} {before : Option UInt32}
    (hphase : decoder.phase = .payload long further before) (h : decoder.register = .fdri)
    (offset : Nat) (word : UInt32) :
    (decoder.takeWord order offset word).1.cursor = (decoder.cursor.take order word).1 ∧
      (decoder.takeWord order offset word).2 = (decoder.cursor.take order word).2 := by
  let paid : Decoder :=
    { decoder with
      crc := Crc.extend decoder.register.raw.toUInt32 word decoder.crc
      cursor := (decoder.cursor.take order word).1 }
  have hpaid : decoder.payloadWord order long word = (paid, (decoder.cursor.take order word).2) :=
    if_pos h
  unfold takeWord
  rw [hphase]
  simp only [hpaid]
  cases further with
  | zero =>
      obtain ⟨hcursor, hevents⟩ := @endPacket_frameData order paid h long (some word)
      simp only [hevents, List.append_nil]
      exact ⟨hcursor, trivial⟩
  | succ further => exact ⟨rfl, rfl⟩

variable (order) in
/-- A byte that completes a word of frame data does what a cursor does with the word. -/
theorem feed_frameData {byte : UInt8} {word : UInt32} (h : decoder.frameWord? byte = some word) :
    (decoder.feed order byte).1.cursor = (decoder.cursor.take order word).1 ∧
      (decoder.feed order byte).2 = (decoder.cursor.take order word).2 := by
  unfold frameWord? at h
  split at h
  · rename_i a b c long further before hpending hphase
    split at h
    · rename_i hregister
      obtain rfl := Option.some.inj h
      let aligned : Decoder := { decoder with position := decoder.position + 4, pending := [] }
      have hword : decoder.feed order byte =
          aligned.takeWord order decoder.position (Word.ofBytes a b c byte) := by
        simp only [Decoder.feed, hpending, hphase, aligned]
      rw [hword]
      exact @takeWord_frameData order aligned _ _ _ hphase hregister _ _
    · cases h
  · cases h

end Decoder

/-- The checked form of a decoder's cursor after the first bytes of a stream. -/
def CheckedCursor.after (order : FrameOrder) (bytes : List UInt8) : CheckedCursor :=
  ofCursor (Decoder.after order bytes).1.cursor (Decoder.after order bytes).2

/-- A byte that completes a word of frame data moves the checked cursor by that word. -/
theorem CheckedCursor.take?_after {order : FrameOrder} {bytes : List UInt8} {byte : UInt8}
    {word : UInt32} (h : (Decoder.after order bytes).1.frameWord? byte = some word) :
    (after order bytes).take? order word = some (after order (bytes ++ [byte])) := by
  obtain ⟨hcursor, hevents⟩ := Decoder.feed_frameData order h
  rw [after, take?_ofCursor, after, Decoder.after_append, hcursor, hevents]

/-- A report holds what was told of the bytes, and no other bits. -/
theorem bits_of_decode {order : FrameOrder} {bytes : List UInt8} {report : Report}
    (h : decode order bytes = .ok report) :
    report.bits = (Decoder.after order bytes).2.filterMap Event.bit? := by
  unfold decode at h
  simp only at h
  split at h
  · rename_i ending hend
    obtain rfl := Except.ok.inj h
    have hnone : ending.filterMap Event.bit? = [] :=
      List.filterMap_eq_nil_iff.2 fun _ => Decoder.bit?_of_mem_finish hend
    rw [Report.bits, List.filterMap_append, hnone, List.append_nil]
    rfl
  · cases h

/-- The bits of a report are data bits. -/
theorem isData_of_decode {order : FrameOrder} {bytes : List UInt8} {report : Report}
    (h : decode order bytes = .ok report) {address : BitAddress}
    (haddress : address ∈ report.bits) : address.IsData := by
  rw [bits_of_decode h] at haddress
  obtain ⟨event, hevent, hbit⟩ := List.mem_filterMap.1 haddress
  have hplaced : event.IsPlaced :=
    Decoder.isPlaced_of_mem_feedAll (fun _ hnone => absurd hnone (Array.not_mem_empty _)) event
      (Array.mem_toList_iff.1 hevent)
  cases event with
  | bit other =>
      obtain rfl := Option.some.inj hbit
      exact hplaced
  | diagnostic => cases hbit

/-! ## Reports -/

/-- Whatever the bytes are, no index leaves its range, and a report agrees with itself. Every byte
that completes a word of frame data moves a checked cursor, which then has a result. Every bit of a
report is a data bit, the frames of the report have exactly its bits, as the checked cursor has set
them, and none of them is empty. -/
theorem decode_inBounds (order : FrameOrder) (bytes : List UInt8) :
    (∀ front back byte word, bytes = front ++ byte :: back →
      (Decoder.after order front).1.frameWord? byte = some word →
      (CheckedCursor.after order front).take? order word =
        some (CheckedCursor.after order (front ++ [byte]))) ∧
    ∀ report, decode order bytes = .ok report →
      report.frames = (CheckedCursor.after order bytes).frames ∧
      (∀ address, .bit address ∈ report.events → address.IsData) ∧
      (∀ frame word bit, bit < Word.width →
        (report.frames.isSet frame (word * Word.width + bit) = true ↔
          .bit ⟨frame, word, bit⟩ ∈ report.events)) ∧
      ∀ address frame, report.frames.get? address = some frame → frame.isEmpty = false := by
  refine ⟨fun front back byte word _ => CheckedCursor.take?_after, fun report h => ?_⟩
  have hinFrame : ∀ address ∈ report.bits, address.InFrame :=
    fun _ haddress => (isData_of_decode h haddress).1
  refine ⟨congrArg FrameMemory.ofBits (bits_of_decode h), ?_, ?_, ?_⟩
  · exact fun address hevent => isData_of_decode h (Report.mem_bits.2 hevent)
  · intro frame word bit hbit
    rw [← Report.mem_bits]
    exact FrameMemory.isSet_ofBits_place hinFrame hbit
  · exact fun address frame hframe => FrameMemory.isEmpty_of_get?_ofBits hinFrame hframe

/-- A frame that follows itself takes a word with two set bits, and both are reported. -/
theorem decode_inBounds_twoBits :
    let order := FrameOrder.ofAddresses [0x100, 0x100]
    let front :=
      [syncWord, (Header.write .far 1).encode, 0x100, (Header.write .fdri 1).encode].flatMap
        Word.toBytes ++ [0x80, 0, 0]
    let report : Report :=
      ⟨[.diagnostic (.syncAt 0), .diagnostic (.write .far 1), .diagnostic (.moveTo 0x100),
        .diagnostic (.write .fdri 1), .bit ⟨0x100, 0, 0⟩, .bit ⟨0x100, 0, 31⟩]⟩
    (Decoder.after order front).1.frameWord? 1 = some 0x80000001 ∧
      (CheckedCursor.after order front).take? order 0x80000001 =
        some (CheckedCursor.after order (front ++ [1])) ∧
      decode order (front ++ [1]) = .ok report ∧
      (⟨0x100, 0, 31⟩ : BitAddress).IsData ∧ report.frames.isSet 0x100 31 = true ∧
      ∃ frame, report.frames.get? 0x100 = some frame ∧ frame.isEmpty = false := by
  intro order front report
  have hword : (Decoder.after order front).1.frameWord? 1 = some 0x80000001 := by decide +kernel
  have hreport : decode order (front ++ [1]) = .ok report := by decide +kernel
  have hevent : .bit ⟨0x100, 0, 31⟩ ∈ report.events := by decide
  obtain ⟨hcursor, hreports⟩ := decode_inBounds order (front ++ [1])
  obtain ⟨-, hdata, hset, hempty⟩ := hreports report hreport
  have hbit : report.frames.isSet 0x100 31 = true := (hset 0x100 0 31 (by decide)).2 hevent
  obtain ⟨frame, hframe, -⟩ := Option.any_eq_true _ _ |>.1 hbit
  exact ⟨hword, hcursor front [] 1 _ rfl hword, hreport, hdata _ hevent, hbit, frame, hframe,
    hempty _ frame hframe⟩

end ConfigStream
