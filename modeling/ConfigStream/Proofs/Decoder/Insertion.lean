import ConfigStream.Proofs.Decoder.Accounting

/-!
# Insertions between packets

Headers that carry no payload, and detours to another sync word, may be put wherever a header is
due. They tell of themselves and change nothing else: the stream after them is decoded as before,
with every offset as much further along as bytes were put in (`decode_insert`). This holds in the
middle of a frame, between a header and the type 2 packet that goes on for its register, and for
detours that are not aligned to words.
-/

namespace ConfigStream

/-! ## Further along in a stream -/

/-- The event with its offset, if it has one, further along. -/
def Event.shift (bytes : Nat) : Event → Event
  | .diagnostic (.syncAt offset) => .diagnostic (.syncAt (offset + bytes))
  | .diagnostic (.dummyAt offset) => .diagnostic (.dummyAt (offset + bytes))
  | .diagnostic (.noSyncFrom offset) => .diagnostic (.noSyncFrom (offset + bytes))
  | event => event

/-- Only a turn has an offset. -/
theorem Event.shift_of_isTurn {event : Event} (h : event.isTurn = false) (bytes : Nat) :
    event.shift bytes = event := by
  match event, h with
  | .bit _, _ => rfl
  | .diagnostic found, h => cases found <;> first | rfl | cases h

/-- Bits and checks have no offset. -/
theorem Event.shift_bits_checks (event : Event) (bytes : Nat) :
    (event.shift bytes).bit? = event.bit? ∧ (event.shift bytes).crcCheck? = event.crcCheck? ∧
      (event.shift bytes).eccCheck? = event.eccCheck? := by
  cases event with
  | bit => exact ⟨rfl, rfl, rfl⟩
  | diagnostic found => cases found <;> exact ⟨rfl, rfl, rfl⟩

/-- The leg with its offsets further along. -/
def Leg.shift (bytes : Nat) : Leg → Leg
  | .packet found => .packet found
  | .detour dummy sync => .detour (dummy + bytes) (sync + bytes)

/-- The ending with its offset further along. -/
def Ending.shift (bytes : Nat) : Ending → Ending
  | .complete => .complete
  | .stopped header => .stopped header
  | .lost dummy => .lost (dummy + bytes)
  | .cut packet announced offset => .cut packet announced (offset + bytes)

/-- The course with its offsets further along. -/
def Course.shift (bytes : Nat) (course : Course) : Course :=
  ⟨course.legs.map (Leg.shift bytes), course.ending.shift bytes⟩

/-- What follows does not depend on the offset, but for the offsets in it. -/
theorem nextLeg_add (offset bytes : Nat) (rest : List UInt8) :
    nextLeg (offset + bytes) rest =
      (nextLeg offset rest).map (Ending.shift bytes)
        fun (leg, later, rest) => (leg.shift bytes, later + bytes, rest) := by
  have hadd (distance : Nat) : offset + bytes + distance = offset + distance + bytes :=
    Nat.add_right_comm ..
  fun_cases nextLeg offset rest with
  | case1 a b c d rest raw hdummy sync later hfound =>
      rw [nextLeg, if_pos hdummy, hadd, findSync_add, hfound]
      exact congrArg (fun later' => Sum.inr (_, later', later)) (Nat.add_right_comm ..)
  | case2 a b c d rest raw hdummy hfound =>
      rw [nextLeg, if_pos hdummy, hadd, findSync_add, hfound]
      rfl
  | case3 a b c d rest raw hdummy announced packet hbegins hpresent =>
      rw [nextLeg, if_neg hdummy]
      simp only [raw] at hbegins
      simp only [hbegins, if_pos hpresent, hadd]
      rfl
  | case4 a b c d rest raw hdummy announced packet hbegins hmissing =>
      rw [nextLeg, if_neg hdummy]
      simp only [raw] at hbegins
      simp only [hbegins, if_neg hmissing, hadd]
      rfl
  | case5 a b c d rest raw hdummy hnone =>
      rw [nextLeg, if_neg hdummy]
      simp only [raw] at hnone
      simp only [hnone]
      rfl
  | case6 rest hshort =>
      rw [nextLeg]
      · rfl
      · exact hshort

/-- A course is the same from any offset on, but for the offsets in it. -/
theorem Course.ofBytes_add (offset bytes : Nat) (rest : List UInt8) :
    ofBytes (offset + bytes) rest = (ofBytes offset rest).shift bytes := by
  have hadd (offset : Nat) (rest : List UInt8) := nextLeg_add offset bytes rest
  fun_induction ofBytes offset rest with
  | case1 offset rest ending hnext =>
      have hshift := hadd offset rest
      rw [hnext] at hshift
      exact ofBytes_of_ending hshift
  | case2 offset rest leg later after hnext ih =>
      have hshift := hadd offset rest
      rw [hnext] at hshift
      rw [ofBytes_of_leg hshift, ih]
      rfl

variable {order : FrameOrder}

/-- What a packet tells has no offset in it. -/
theorem Boundary.take_shift (boundary : Boundary) (packet : Packet) (bytes : Nat) :
    (boundary.take order packet).2.map (Event.shift bytes) = (boundary.take order packet).2 := by
  obtain ⟨header, quiet, htake, hturn, -, hquiet⟩ := boundary.take_eq_cons order packet
  have hevents (event : Event) (hevent : event ∈ header :: quiet) : event.shift bytes = event := by
    rcases List.mem_cons.1 hevent with rfl | hevent
    · exact Event.shift_of_isTurn hturn bytes
    · exact Event.shift_of_isTurn (hquiet event hevent).1 bytes
  rw [htake, List.map_congr_left hevents, List.map_id']

variable (order) in
/-- Legs further along do the same, and what they tell is further along. -/
theorem Boundary.travel_shift (boundary : Boundary) (legs : List Leg) (bytes : Nat) :
    (boundary.travel order (legs.map (Leg.shift bytes))).1 = (boundary.travel order legs).1 ∧
      (boundary.travel order (legs.map (Leg.shift bytes))).2 =
        (boundary.travel order legs).2.map (Event.shift bytes) := by
  induction legs generalizing boundary with
  | nil => exact ⟨rfl, rfl⟩
  | cons leg legs ih =>
      have hleg : (boundary.pass order (leg.shift bytes)).1 = (boundary.pass order leg).1 ∧
          (boundary.pass order (leg.shift bytes)).2 =
            (boundary.pass order leg).2.map (Event.shift bytes) := by
        cases leg with
        | packet packet => exact ⟨rfl, (boundary.take_shift packet bytes).symm⟩
        | detour dummy sync => exact ⟨rfl, rfl⟩
      obtain ⟨hlast, hevents⟩ := ih (boundary.pass order leg).1
      simp only [List.map_cons, travel, hleg, hlast, hevents, List.map_append, and_self]

variable (order) in
/-- A course further along, if it is complete, tells the same further along. -/
theorem Course.told_shift (boundary : Boundary) (course : Course) (bytes : Nat) {last : List Event}
    (h : course.ending.finish = .ok last) :
    (course.shift bytes).ending.finish = .ok (last.map (Event.shift bytes)) ∧
      (course.shift bytes).told order boundary =
        (course.told order boundary).map (Event.shift bytes) := by
  obtain ⟨legs, ending⟩ := course
  obtain ⟨hlast, hevents⟩ := boundary.travel_shift order legs bytes
  have hending (boundary : Boundary) : (ending.shift bytes).told order boundary =
      (ending.told order boundary).map (Event.shift bytes) := by
    cases ending with
    | complete | stopped | lost => rfl
    | cut => cases h
  constructor
  · cases ending with
    | complete | stopped =>
        obtain rfl := Except.ok.inj h
        rfl
    | lost dummy =>
        obtain rfl := Except.ok.inj h
        exact congrArg (fun start => Except.ok [Event.diagnostic (.noSyncFrom start)])
          (Nat.add_right_comm ..)
    | cut => cases h
  · simp only [told, shift, hlast, hevents, hending, List.map_append]

/-- A course further along, if it is not complete, ends further along. -/
theorem Course.finish_shift (course : Course) (bytes : Nat) {fault : Fault}
    (h : course.ending.finish = .error fault) :
    ∃ stop, fault = .endInPayload stop ∧
      (course.shift bytes).ending.finish = .error (.endInPayload (stop + bytes)) := by
  obtain ⟨legs, ending⟩ := course
  cases ending with
  | complete | stopped | lost => cases h
  | cut packet announced stop => exact ⟨stop, (Except.error.inj h).symm, rfl⟩

/-! ## Insertions -/

/-- What may be put where a header is due: a header, or an all-ones word with bytes after it up to
another sync word. -/
inductive Insertion where
  | header (raw : UInt32)
  | splice (junk : List UInt8)
deriving DecidableEq, Repr

namespace Insertion

/-- The bytes of an insertion. -/
def bytes : Insertion → List UInt8
  | .header raw => Word.toBytes raw
  | .splice junk => Word.toBytes dummyWord ++ junk ++ Word.toBytes syncWord

/-- The header is of type 1 and does not write; the bytes of a splice hold no sync word but the one
at their end. -/
def Transparent : Insertion → Prop
  | .header raw => ∃ opcode register words, opcode ≠ .write ∧
      Header.decode raw = .type1 opcode register words
  | .splice junk => ∀ offset, Word.StandsAt syncWord (junk ++ Word.toBytes syncWord) offset →
      offset = junk.length

/-- What an insertion at an offset tells of itself. -/
def told (offset : Nat) : Insertion → List Event
  | .header raw =>
    match Header.decode raw with
    | .type1 .nop _ _ => [.diagnostic .nop]
    | .type1 _ register _ => [.diagnostic (.read register)]
    | .type2 .. | .unknown .. => []
  | .splice junk =>
    [.diagnostic (.dummyAt offset), .diagnostic (.syncAt (offset + 4 + junk.length))]

/-- The bytes of insertions one after another. -/
def allBytes (insertions : List Insertion) : List UInt8 := insertions.flatMap bytes

/-- What insertions one after another tell of themselves. -/
def allTold (offset : Nat) : List Insertion → List Event
  | [] => []
  | insertion :: insertions =>
    insertion.told offset ++ allTold (offset + insertion.bytes.length) insertions

end Insertion

variable (order) in
/-- An insertion is read and leaves the boundary as it is. -/
theorem Insertion.Transparent.reads {insertion : Insertion} (h : insertion.Transparent)
    (boundary : Boundary) (offset : Nat) :
    Decoder.Reads order (boundary.decoder offset) insertion.bytes (insertion.told offset)
      (boundary.decoder (offset + insertion.bytes.length)) := by
  cases insertion with
  | header raw =>
      obtain ⟨opcode, register, words, hopcode, hdecode⟩ := h
      have hheader : (Packet.bare opcode register words).HasHeader raw := by
        refine ⟨?_, hdecode, ?_⟩
        · rintro rfl
          cases hdecode.symm.trans (show Header.decode dummyWord = .unknown 7 dummyWord from rfl)
        · rintro _ _ hbare
          exact hopcode (Packet.bare.inj hbare).1
      have hread : Decoder.Reads order _ _ _ _ := .packetWord hheader boundary offset
      rw [Packet.payload, List.flatMap_nil, List.append_nil] at hread
      have htold : (Insertion.header raw).told offset =
          (boundary.take order (.bare opcode register words)).2 := by
        rw [Insertion.told, hdecode]
        cases opcode <;> rfl
      rw [htold]
      exact hread
  | splice junk =>
      have hstands : Word.StandsAt syncWord (junk ++ Word.toBytes syncWord) junk.length := by
        simpa using Word.standsAt_append syncWord junk []
      have hfound := findSync_eq hstands
        (fun earlier hearlier hstands => Nat.ne_of_lt hearlier (h earlier hstands)) (offset + 4)
      have hstage : Stage offset (Word.toBytes dummyWord ++ (junk ++ Word.toBytes syncWord))
          (.inr (.detour offset (offset + 4 + junk.length), offset + 4 + junk.length + 4,
            (junk ++ Word.toBytes syncWord).drop (junk.length + 4))) :=
        .detour hfound
      have hnone : (junk ++ Word.toBytes syncWord).drop (junk.length + 4) = [] := by
        simp
      rw [hnone] at hstage
      obtain ⟨taken, htaken, hread⟩ := Decoder.Reads.leg order hstage boundary
      rw [List.append_nil] at htaken
      subst htaken
      have hlength : (Insertion.splice junk).bytes.length = 4 + junk.length + 4 := by
        simp only [Insertion.bytes, List.length_append, Word.length_toBytes]
      rw [hlength, Insertion.bytes, List.append_assoc, ← Nat.add_assoc, ← Nat.add_assoc]
      exact hread

variable (order) in
/-- Insertions one after another are read and leave the boundary as it is. -/
theorem Insertion.reads_all {insertions : List Insertion}
    (h : ∀ insertion ∈ insertions, insertion.Transparent) (boundary : Boundary) (offset : Nat) :
    Decoder.Reads order (boundary.decoder offset) (Insertion.allBytes insertions)
      (Insertion.allTold offset insertions)
      (boundary.decoder (offset + (Insertion.allBytes insertions).length)) := by
  induction insertions generalizing offset with
  | nil => exact .nil
  | cons insertion insertions ih =>
      have hfirst := (h insertion List.mem_cons_self).reads order boundary offset
      have hrest := ih (fun other hother => h other (List.mem_cons_of_mem insertion hother))
        (offset + insertion.bytes.length)
      rw [Insertion.allBytes, List.flatMap_cons, List.length_append, ← Nat.add_assoc]
      exact hfirst.trans hrest

/-! ## Streams with insertions -/

/-- A decoder that waits for the first byte of a header. -/
structure Decoder.AwaitsHeader (decoder : Decoder) : Prop where
  phase : decoder.phase = .header
  pending : decoder.pending = []

/-- After the first bytes of a stream, a decoder that waits for a header is at a boundary. -/
theorem Decoder.AwaitsHeader.eq_decoder {front : List UInt8}
    (h : (Decoder.after order front).1.AwaitsHeader) :
    (Decoder.after order front).1 =
      (Decoder.after order front).1.boundary.decoder front.length := by
  have hposition := (Decoder.after_position order front).2
  rw [h.pending, List.length_nil, Nat.add_zero] at hposition
  have hdecoder := Decoder.eq_decoder h.pending
  rwa [h.phase, hposition] at hdecoder

/-- A stream goes on after its first bytes as the course of the other bytes says. -/
theorem Decoder.Reads.decode_after {front : List UInt8} {events : List Event}
    {boundary : Boundary} {offset : Nat}
    (h : Decoder.Reads order .start front events (boundary.decoder offset)) (back : List UInt8) :
    decode order (front ++ back) =
      (Course.ofBytes offset back).ending.finish.map fun last =>
        ⟨events ++ ((Course.ofBytes offset back).told order boundary ++ last)⟩ := by
  obtain ⟨last, hback, hlast⟩ := Decoder.Reads.course order boundary offset back
  rw [(h.trans hback).decode_eq, hlast]
  simp only [List.append_assoc]

/-- An insertion tells of no frame data and of no check. -/
theorem Insertion.none_of_mem_told {insertion : Insertion} {offset : Nat} {event : Event}
    (h : event ∈ insertion.told offset) :
    event.bit? = none ∧ event.crcCheck? = none ∧ event.eccCheck? = none := by
  cases insertion with
  | header raw =>
      rw [told] at h
      split at h
      · exact List.mem_singleton.1 h ▸ ⟨rfl, rfl, rfl⟩
      · exact List.mem_singleton.1 h ▸ ⟨rfl, rfl, rfl⟩
      · cases h
      · cases h
  | splice junk =>
      rcases List.mem_pair.1 h with rfl | rfl <;> exact ⟨rfl, rfl, rfl⟩

theorem Insertion.none_of_mem_allTold {insertions : List Insertion} {offset : Nat} {event : Event}
    (h : event ∈ Insertion.allTold offset insertions) :
    event.bit? = none ∧ event.crcCheck? = none ∧ event.eccCheck? = none := by
  induction insertions generalizing offset with
  | nil => cases h
  | cons insertion insertions ih =>
      rcases List.mem_append.1 h with h | h
      · exact Insertion.none_of_mem_told h
      · exact ih h

/-- What is picked out of the events of a stream, if it has no offset and insertions do not tell it,
is the same with insertions. -/
theorem Insertion.filterMap_eq {α : Type} {pick : Event → Option α}
    (hshift : ∀ event bytes, pick (event.shift bytes) = pick event) {insertions : List Insertion}
    {offset : Nat} (htold : ∀ event ∈ Insertion.allTold offset insertions, pick event = none)
    (early late : List Event) (bytes : Nat) :
    (early ++ Insertion.allTold offset insertions ++ late.map (Event.shift bytes)).filterMap pick =
      (early ++ late).filterMap pick := by
  have hlate : pick ∘ Event.shift bytes = pick := funext fun event => hshift event bytes
  rw [List.filterMap_append, List.filterMap_append, List.filterMap_eq_nil_iff.2 htold,
    List.append_nil, List.filterMap_map, hlate, List.filterMap_append]

/-- Insertions where a header is due change nothing but offsets. If the stream without them ends
inside a payload, then so does the one with them, as many bytes later. Otherwise both are decoded to
the same events, with those of the insertions at their place and every later offset as many bytes
further along; the bits, the frames and all checks are the same. -/
theorem decode_insert {front : List UInt8} {insertions : List Insertion}
    (hfront : (Decoder.after order front).1.AwaitsHeader)
    (h : ∀ insertion ∈ insertions, insertion.Transparent) (back : List UInt8) :
    (∃ stop, decode order (front ++ back) = .error (.endInPayload stop) ∧
      decode order (front ++ Insertion.allBytes insertions ++ back) =
        .error (.endInPayload (stop + (Insertion.allBytes insertions).length))) ∨
    ∃ (late : List Event) (plain spliced : Report),
      plain.events = (Decoder.after order front).2 ++ late ∧
      spliced.events = (Decoder.after order front).2 ++
        Insertion.allTold front.length insertions ++
          late.map (Event.shift (Insertion.allBytes insertions).length) ∧
      decode order (front ++ back) = .ok plain ∧
      decode order (front ++ Insertion.allBytes insertions ++ back) = .ok spliced ∧
      spliced.bits = plain.bits ∧ spliced.frames = plain.frames ∧
      spliced.crcChecks = plain.crcChecks ∧ spliced.eccChecks = plain.eccChecks := by
  have hearly := Decoder.Reads.after order front
  rw [hfront.eq_decoder] at hearly
  have hplain := hearly.decode_after back
  have hspliced := (hearly.trans (Insertion.reads_all order h _ front.length)).decode_after back
  rw [Course.ofBytes_add] at hspliced
  generalize (Decoder.after order front).1.boundary = boundary at hplain hspliced
  generalize Course.ofBytes front.length back = course at hplain hspliced
  generalize (Decoder.after order front).2 = early at hplain hspliced ⊢
  generalize (Insertion.allBytes insertions).length = bytes at hspliced ⊢
  cases hfinish : course.ending.finish with
  | error fault =>
      obtain ⟨stop, rfl, hlater⟩ := course.finish_shift bytes hfinish
      rw [hfinish] at hplain
      rw [hlater] at hspliced
      exact .inl ⟨stop, hplain, hspliced⟩
  | ok last =>
      obtain ⟨hlater, htold⟩ := course.told_shift order boundary bytes hfinish
      rw [hfinish] at hplain
      rw [hlater, htold, Except.map, ← List.map_append] at hspliced
      have hnone {event : Event} (hevent : event ∈ Insertion.allTold front.length insertions) :=
        Insertion.none_of_mem_allTold hevent
      have hbits := Insertion.filterMap_eq (fun event bytes => (event.shift_bits_checks bytes).1)
        (fun _ hevent => (hnone hevent).1) early (course.told order boundary ++ last) bytes
      have hcrcs := Insertion.filterMap_eq (fun event bytes => (event.shift_bits_checks bytes).2.1)
        (fun _ hevent => (hnone hevent).2.1) early (course.told order boundary ++ last) bytes
      have heccs := Insertion.filterMap_eq (fun event bytes => (event.shift_bits_checks bytes).2.2)
        (fun _ hevent => (hnone hevent).2.2) early (course.told order boundary ++ last) bytes
      exact .inr ⟨course.told order boundary ++ last, _, _, rfl, rfl, hplain, hspliced, hbits,
        congrArg FrameMemory.ofBits hbits, hcrcs, heccs⟩

/-- In the middle of a frame, between a write of frame data and the type 2 packet that goes on with
it, a detour to a sync word that is not aligned and a header that reads. -/
theorem decode_insert_inFrame :
    let order := FrameOrder.empty
    let front := [syncWord, (Header.write .far 1).encode, 0x100, (Header.write .fdri 1).encode,
      0x80000000].flatMap Word.toBytes
    let insertions : List Insertion :=
      [.splice [0xAA, 0x99], .header (Header.type1 .read .fdri 3).encode]
    let back := [(Header.type2 .write 1).encode, 2, dummyWord].flatMap Word.toBytes
    let early : List Event :=
      [.diagnostic (.syncAt 0), .diagnostic (.write .far 1), .diagnostic (.moveTo 0x100),
        .diagnostic (.write .fdri 1), .bit ⟨0x100, 0, 31⟩]
    let inserted : List Event :=
      [.diagnostic (.dummyAt 20), .diagnostic (.syncAt 26), .diagnostic (.read .fdri)]
    let late (dummy : Nat) : List Event :=
      [.diagnostic (.continued .fdri 1), .bit ⟨0x100, 1, 1⟩, .diagnostic (.dummyAt dummy),
        .diagnostic (.noSyncFrom (dummy + 4))]
    let plain : Report := ⟨early ++ late 28⟩
    let spliced : Report := ⟨early ++ inserted ++ late 42⟩
    (Decoder.after order front).1.AwaitsHeader ∧
      (∀ insertion ∈ insertions, insertion.Transparent) ∧
      decode order (front ++ back) = .ok plain ∧
      decode order (front ++ Insertion.allBytes insertions ++ back) = .ok spliced ∧
      spliced.frames = plain.frames := by
  intro order front insertions back early inserted late plain spliced
  have hfront : (Decoder.after order front).1.AwaitsHeader :=
    ⟨by decide +kernel, by decide +kernel⟩
  have hinsertions : ∀ insertion ∈ insertions, insertion.Transparent := by
    intro insertion hinsertion
    rcases List.mem_pair.1 hinsertion with rfl | rfl
    · intro offset hstands
      have hle : offset + 4 ≤ 6 := hstands.le
      match offset, hle with
      | 0, _ => exact absurd hstands (by decide)
      | 1, _ => exact absurd hstands (by decide)
      | 2, _ => rfl
    · exact ⟨.read, .fdri, 3, by decide, by decide⟩
  have hplain : decode order (front ++ back) = .ok plain := by decide +kernel
  have hearly : (Decoder.after order front).2 = early := by decide +kernel
  rcases decode_insert hfront hinsertions back with ⟨stop, hstop, -⟩ |
    ⟨others, first, second, hfirst, hsecond, hdecode, hspliced, -, hframes, -, -⟩
  · cases hplain.symm.trans hstop
  · obtain rfl : plain = first := Except.ok.inj (hplain.symm.trans hdecode)
    rw [hearly] at hfirst hsecond
    obtain rfl : late 28 = others := List.append_cancel_left hfirst
    obtain rfl : second = spliced := congrArg Report.mk hsecond
    exact ⟨hfront, hinsertions, hplain, hspliced, hframes⟩

end ConfigStream
