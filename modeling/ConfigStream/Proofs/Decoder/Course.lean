import ConfigStream.Proofs.Decoder.Packets
import ConfigStream.Proofs.Stream.Sync

/-!
# The course of a stream

From a place on where a header is due, a stream is a sequence of legs and an ending: a leg is a
packet, or the way from an all-ones word to the next sync word. `Course.ofBytes` takes bytes apart
in this way. It looks at headers and counts only; what the legs do to a decoder is said by
`Boundary.travel`. `Reads.course` says that this is what a decoder makes of the bytes, whatever they
are, and `decode_eq` what becomes of a whole stream.
-/

namespace ConfigStream

namespace Word

/-- The words that bytes spell, as far as they are complete. -/
def ofStream : List UInt8 → List UInt32
  | a :: b :: c :: d :: rest => ofBytes a b c d :: ofStream rest
  | _ => []

/-- Bytes that do not begin with a word are fewer than four. -/
theorem length_lt_of_incomplete {bytes : List UInt8}
    (h : ∀ a b c d rest, bytes = a :: b :: c :: d :: rest → False) : bytes.length < 4 := by
  match bytes with
  | [] | [_] | [_, _] | [_, _, _] => simp
  | a :: b :: c :: d :: rest => exact (h a b c d rest rfl).elim

theorem length_ofStream (bytes : List UInt8) : (ofStream bytes).length = bytes.length / 4 := by
  fun_induction ofStream bytes with
  | case1 a b c d rest ih =>
      simp only [List.length_cons, ih]
      omega
  | case2 bytes h =>
      have hshort := length_lt_of_incomplete h
      rw [List.length_nil]
      omega

/-- Words are spelled by their bytes, up to the last few. -/
theorem flatMap_ofStream (bytes : List UInt8) :
    (ofStream bytes).flatMap toBytes = bytes.take (4 * (bytes.length / 4)) := by
  fun_induction ofStream bytes with
  | case1 a b c d rest ih =>
      have hlength : 4 * ((a :: b :: c :: d :: rest).length / 4) = 4 * (rest.length / 4) + 4 := by
        simp only [List.length_cons]
        omega
      rw [List.flatMap_cons, toBytes_ofBytes, ih, hlength]
      rfl
  | case2 bytes h =>
      have hshort := length_lt_of_incomplete h
      rw [show bytes.length / 4 = 0 by omega]
      rfl

/-- A whole number of words is spelled by its bytes. -/
theorem flatMap_ofStream_take {bytes : List UInt8} {words : Nat} (h : 4 * words ≤ bytes.length) :
    (ofStream (bytes.take (4 * words))).flatMap toBytes = bytes.take (4 * words) ∧
      (ofStream (bytes.take (4 * words))).length = words := by
  have hlength : (bytes.take (4 * words)).length = 4 * words := List.length_take_of_le h
  constructor
  · rw [flatMap_ofStream, hlength, List.take_take]
    congr 1
    omega
  · rw [length_ofStream, hlength]
    omega

end Word

/-- The payload words that follow a header, and the packet that they make with it. A header of
unknown type begins no packet. -/
def Header.begins? : Header → Option (Nat × (List UInt32 → Packet))
  | .type1 .write register words => some (words, .write register)
  | .type1 opcode register words => some (0, fun _ => .bare opcode register words)
  | .type2 opcode words => some (words, .long opcode)
  | .unknown .. => none

/-! ## Legs and endings -/

/-- A stretch of a stream between two places where a header is due. -/
inductive Leg where
  | packet (packet : Packet)
  /-- From an all-ones word to the next sync word, with the offsets of both. -/
  | detour (dummy sync : Nat)
deriving DecidableEq, Repr

/-- How a stream ends. -/
inductive Ending where
  /-- Fewer than four bytes are left where a header is due. -/
  | complete
  /-- With a header of unknown type. -/
  | stopped (header : UInt32)
  /-- With an all-ones word that no sync word follows, at the offset. -/
  | lost (dummy : Nat)
  /-- Inside a packet: what there is of it, how many payload words it announced, and the offset of
  the first that is missing. -/
  | cut (packet : Packet) (announced offset : Nat)
deriving DecidableEq, Repr

/-- The legs of a stream, and its ending. -/
structure Course where
  legs : List Leg
  ending : Ending
deriving DecidableEq, Repr

/-- From bytes at an offset where a header is due: how the stream ends there, or the leg that
follows, with its end and the bytes from there on. -/
def nextLeg (offset : Nat) : List UInt8 → Ending ⊕ (Leg × Nat × List UInt8)
  | a :: b :: c :: d :: rest =>
    let raw := Word.ofBytes a b c d
    if raw = dummyWord then
      match findSync (offset + 4) rest with
      | some (sync, later) => .inr (.detour offset sync, sync + 4, later)
      | none => .inl (.lost offset)
    else
      match (Header.decode raw).begins? with
      | some (announced, packet) =>
        if 4 * announced ≤ rest.length then
          .inr (.packet (packet (Word.ofStream (rest.take (4 * announced)))),
            offset + (4 + 4 * announced), rest.drop (4 * announced))
        else
          .inl (.cut (packet (Word.ofStream rest)) announced (offset + (4 + 4 * (rest.length / 4))))
      | none => .inl (.stopped raw)
  | _ => .inl .complete

/-- Everything that bytes at an offset where a header is due can be: `nextLeg` finds out which. -/
inductive Stage (offset : Nat) : List UInt8 → Ending ⊕ (Leg × Nat × List UInt8) → Prop where
  | complete {bytes : List UInt8} (hshort : bytes.length < 4) : Stage offset bytes (.inl .complete)
  | stopped (raw : UInt32) (rest : List UInt8) (hdummy : raw ≠ dummyWord)
      (hunknown : Header.decode raw = .unknown (raw >>> 29).toUInt8 raw) :
      Stage offset (Word.toBytes raw ++ rest) (.inl (.stopped raw))
  | lost {rest : List UInt8} (hfound : findSync (offset + 4) rest = none) :
      Stage offset (Word.toBytes dummyWord ++ rest) (.inl (.lost offset))
  | cut (raw : UInt32) (packet : List UInt32 → Packet) {announced : Nat} {rest : List UInt8}
      (hdummy : raw ≠ dummyWord) (hbegins : (Header.decode raw).begins? = some (announced, packet))
      (hmissing : rest.length < 4 * announced) :
      Stage offset (Word.toBytes raw ++ rest)
        (.inl (.cut (packet (Word.ofStream rest)) announced (offset + (4 + 4 * (rest.length / 4)))))
  | detour {sync : Nat} {between rest : List UInt8}
      (hfound : findSync (offset + 4) between = some (sync, rest)) :
      Stage offset (Word.toBytes dummyWord ++ between) (.inr (.detour offset sync, sync + 4, rest))
  | packet (raw : UInt32) {packet : Packet} (rest : List UInt8) (hheader : packet.HasHeader raw) :
      Stage offset (Word.toBytes raw ++ packet.payload.flatMap Word.toBytes ++ rest)
        (.inr (.packet packet, offset + (4 + 4 * packet.payload.length), rest))

/-- The packets that headers begin: writes and type 2 packets with the payload that is announced,
and headers of type 1 that stand alone. -/
theorem Header.begins?_cases {header : Header} {announced : Nat} {packet : List UInt32 → Packet}
    (h : header.begins? = some (announced, packet)) :
    (∃ register, header = .type1 .write register announced ∧ packet = .write register) ∨
      (∃ opcode, header = .type2 opcode announced ∧ packet = .long opcode) ∨
      ∃ opcode register words, header = .type1 opcode register words ∧ opcode ≠ .write ∧
        announced = 0 ∧ packet = fun _ => .bare opcode register words := by
  cases header with
  | type1 opcode register words =>
      cases opcode with
      | write =>
          obtain ⟨rfl, rfl⟩ := Prod.mk.inj (Option.some.inj h)
          exact .inl ⟨register, rfl, rfl⟩
      | nop | read | reserved =>
          obtain ⟨rfl, rfl⟩ := Prod.mk.inj (Option.some.inj h)
          exact .inr (.inr ⟨_, register, words, rfl, Opcode.noConfusion, rfl, rfl⟩)
  | type2 opcode words =>
      obtain ⟨rfl, rfl⟩ := Prod.mk.inj (Option.some.inj h)
      exact .inr (.inl ⟨opcode, rfl, rfl⟩)
  | unknown => cases h

/-- A header begins a packet that has it, with the payload that it announces. -/
theorem Header.begins?_eq_some {raw : UInt32} {announced : Nat} {packet : List UInt32 → Packet}
    (hdummy : raw ≠ dummyWord) (h : (decode raw).begins? = some (announced, packet))
    {words : List UInt32} (hwords : words.length = announced) :
    (packet words).HasHeader raw ∧ (packet words).payload = words := by
  subst hwords
  obtain ⟨register, hdecode, rfl⟩ | ⟨opcode, hdecode, rfl⟩ |
    ⟨opcode, register, count, hdecode, hopcode, hnone, rfl⟩ := begins?_cases h
  · exact ⟨⟨hdummy, hdecode, fun _ _ => Packet.noConfusion⟩, rfl⟩
  · exact ⟨⟨hdummy, hdecode, fun _ _ => Packet.noConfusion⟩, rfl⟩
  · refine ⟨⟨hdummy, hdecode, ?_⟩, (List.length_eq_zero_iff.1 hnone).symm⟩
    rintro _ _ hbare
    exact hopcode (Packet.bare.inj hbare).1

/-- A header that begins no packet is of unknown type. -/
theorem Header.begins?_eq_none {raw : UInt32} (h : (decode raw).begins? = none) :
    decode raw = .unknown (raw >>> 29).toUInt8 raw := by
  by_cases htype : raw >>> 29 = 1
  · simp only [decode, htype, if_true] at h
    generalize Opcode.ofBits (raw >>> 27) = opcode at h
    cases opcode <;> cases h
  · by_cases htwo : raw >>> 29 = 2
    · simp only [decode, htwo, if_true] at h
      cases h
    · simp only [decode, htype, htwo, if_false]

/-- `nextLeg` finds out what bytes are. -/
theorem stage_nextLeg (offset : Nat) (bytes : List UInt8) :
    Stage offset bytes (nextLeg offset bytes) := by
  have hword (a b c d : UInt8) (rest : List UInt8) :
      a :: b :: c :: d :: rest = Word.toBytes (Word.ofBytes a b c d) ++ rest := by
    rw [Word.toBytes_ofBytes]
    rfl
  fun_cases nextLeg offset bytes with
  | case1 a b c d rest raw hdummy sync later hfound =>
      rw [hword, show Word.ofBytes a b c d = dummyWord from hdummy]
      exact .detour hfound
  | case2 a b c d rest raw hdummy hfound =>
      rw [hword, show Word.ofBytes a b c d = dummyWord from hdummy]
      exact .lost hfound
  | case3 a b c d rest raw hdummy announced packet hbegins hpresent =>
      obtain ⟨hpayload, hlength⟩ := Word.flatMap_ofStream_take hpresent
      obtain ⟨hheader, hwords⟩ := Header.begins?_eq_some hdummy hbegins hlength
      have hstage : Stage offset _ _ := .packet raw (rest.drop (4 * announced)) hheader
      rw [hwords, hpayload, hlength, List.append_assoc, List.take_append_drop] at hstage
      rw [hword]
      exact hstage
  | case4 a b c d rest raw hdummy announced packet hbegins hmissing =>
      rw [hword]
      exact .cut raw packet hdummy hbegins (Nat.lt_of_not_le hmissing)
  | case5 a b c d rest raw hdummy hnone =>
      rw [hword]
      exact .stopped raw rest hdummy (Header.begins?_eq_none hnone)
  | case6 bytes hshort => exact .complete (Word.length_lt_of_incomplete hshort)

/-- A leg takes bytes, at least a header, and ends as many bytes further along. -/
theorem Stage.taken {offset later : Nat} {bytes rest : List UInt8} {leg : Leg}
    (h : Stage offset bytes (.inr (leg, later, rest))) :
    ∃ taken, bytes = taken ++ rest ∧ later = offset + taken.length ∧ 4 ≤ taken.length := by
  cases h with
  | @detour sync between rest hfound =>
      obtain ⟨distance, rfl, rfl, hstands, -⟩ := findSync_eq_some_iff.1 hfound
      have hinside := hstands.le
      refine ⟨Word.toBytes dummyWord ++ between.take (distance + 4), ?_, ?_, ?_⟩
      · rw [List.append_assoc, List.take_append_drop]
      · rw [List.length_append, Word.length_toBytes, List.length_take_of_le hinside]
        omega
      · simp only [List.length_append, Word.length_toBytes]
        omega
  | packet raw rest hheader =>
      refine ⟨_, rfl, ?_, ?_⟩ <;>
        simp only [List.length_append, Word.length_toBytes, Word.length_flatMap_toBytes]
      omega

namespace Course

/-- The course that begins with a leg. -/
def cons (leg : Leg) (course : Course) : Course := ⟨leg :: course.legs, course.ending⟩

/-- The course that bytes at an offset take from there on. -/
def ofBytes (offset : Nat) (bytes : List UInt8) : Course :=
  match _hnext : nextLeg offset bytes with
  | .inl ending => ⟨[], ending⟩
  | .inr (leg, later, rest) => cons leg (ofBytes later rest)
termination_by bytes.length
decreasing_by
  obtain ⟨taken, rfl, -, htaken⟩ := Stage.taken (_hnext ▸ stage_nextLeg offset bytes)
  rw [List.length_append]
  omega

theorem ofBytes_of_ending {offset : Nat} {bytes : List UInt8} {ending : Ending}
    (h : nextLeg offset bytes = .inl ending) : ofBytes offset bytes = ⟨[], ending⟩ := by
  rw [ofBytes]
  split
  · rename_i other hother
    rw [Sum.inl.inj (hother.symm.trans h)]
  · rename_i hleg
    cases hleg.symm.trans h

theorem ofBytes_of_leg {offset later : Nat} {bytes rest : List UInt8} {leg : Leg}
    (h : nextLeg offset bytes = .inr (leg, later, rest)) :
    ofBytes offset bytes = cons leg (ofBytes later rest) := by
  rw [ofBytes]
  split
  · rename_i hending
    cases hending.symm.trans h
  · rename_i hleg
    cases hleg.symm.trans h
    rfl

end Course

/-! ## What a course tells -/

namespace Boundary

open Decoder

/-- What a leg does to a boundary, and what it tells. -/
def pass (order : FrameOrder) (boundary : Boundary) : Leg → Boundary × List Event
  | .packet packet => boundary.take order packet
  | .detour dummy sync =>
    (boundary, [.diagnostic (.dummyAt dummy), .diagnostic (.syncAt sync)])

/-- What a sequence of legs does to a boundary, and what it tells. -/
def travel (order : FrameOrder) (boundary : Boundary) : List Leg → Boundary × List Event
  | [] => (boundary, [])
  | leg :: legs =>
    let (next, events) := boundary.pass order leg
    let (last, more) := next.travel order legs
    (last, events ++ more)

/-- What a packet tells up to its last payload word, when more words are announced than follow. -/
def toldPart (order : FrameOrder) (boundary : Boundary) (announced : Nat) : Packet → List Event
  | .bare .. => []
  | .write register words =>
    let lengths :=
      if register = .far ∧ announced ≠ 1 then [.diagnostic (.moveLength announced)] else []
    .diagnostic (.write register announced) :: lengths ++
      payloadEvents order register false boundary.cursor words
  | .long _ words =>
    .diagnostic (.continued boundary.register announced) ::
      payloadEvents order boundary.register true boundary.cursor words

end Boundary

namespace Ending

/-- What is told before the stream is over. -/
def told (order : FrameOrder) (boundary : Boundary) : Ending → List Event
  | .complete => []
  | .stopped header => [.diagnostic (.unknownHeader (header >>> 29).toUInt8 header)]
  | .lost dummy => [.diagnostic (.dummyAt dummy)]
  | .cut packet announced _ => boundary.toldPart order announced packet

/-- What is told when the stream is over. -/
def finish : Ending → Except Fault (List Event)
  | .complete | .stopped _ => .ok []
  | .lost dummy => .ok [.diagnostic (.noSyncFrom (dummy + 4))]
  | .cut _ _ offset => .error (.endInPayload offset)

end Ending

/-- What a course tells from a boundary on. -/
def Course.told (order : FrameOrder) (boundary : Boundary) (course : Course) : List Event :=
  (boundary.travel order course.legs).2 ++
    course.ending.told order (boundary.travel order course.legs).1

/-- A course tells what its first leg tells, and then what the others do. -/
theorem Course.told_cons (order : FrameOrder) (boundary : Boundary) (leg : Leg) (course : Course) :
    (course.cons leg).told order boundary =
      (boundary.pass order leg).2 ++ course.told order (boundary.pass order leg).1 :=
  List.append_assoc ..

namespace Decoder

variable {order : FrameOrder}

/-- The all-ones word starts a search behind it. -/
theorem Reads.dummy (boundary : Boundary) (offset : Nat) :
    Reads order (boundary.decoder offset) (Word.toBytes dummyWord) [.diagnostic (.dummyAt offset)]
      { boundary.decoder (offset + 4) with phase := .desynced (offset + 4) } :=
  .header (if_pos rfl)

variable (order) in
/-- A leg is read as it says. -/
theorem Reads.leg {offset later : Nat} {bytes rest : List UInt8} {leg : Leg}
    (h : Stage offset bytes (.inr (leg, later, rest))) (boundary : Boundary) :
    ∃ taken, bytes = taken ++ rest ∧
      Reads order (boundary.decoder offset) taken (boundary.pass order leg).2
        ((boundary.pass order leg).1.decoder later) := by
  cases h with
  | @detour sync between rest hfound =>
      let searching := { boundary.decoder (offset + 4) with phase := .desynced (offset + 4) }
      obtain ⟨taken, rfl, hsync⟩ := @Reads.search order searching between rest sync rfl
        (Nat.zero_le 3) hfound
      exact ⟨_, (List.append_assoc ..).symm, (Reads.dummy boundary offset).trans hsync⟩
  | packet raw rest hheader => exact ⟨_, rfl, .packetWord hheader boundary offset⟩

/-- After a header of unknown type nothing is read. -/
theorem Reads.stopped {decoder : Decoder} (hphase : decoder.phase = .stopped) (bytes : List UInt8) :
    ∃ last, Reads order decoder bytes [] last ∧ last.phase = .stopped := by
  induction bytes generalizing decoder with
  | nil => exact ⟨decoder, .nil, hphase⟩
  | cons byte bytes ih =>
      have hbyte : ∃ next, decoder.feed order byte = (next, []) ∧ next.phase = .stopped := by
        unfold Decoder.feed
        split
        · exact ⟨{ decoder with position := decoder.position + 4, pending := [] },
            by simp only [hphase, takeWord], hphase⟩
        · exact ⟨_, rfl, hphase⟩
      obtain ⟨next, hfeed, hnext⟩ := hbyte
      obtain ⟨last, hreads, hlast⟩ := ih hnext
      exact ⟨last, .trans (.feed hfeed) hreads, hlast⟩

variable (order) in
/-- Payload that is announced but not there makes the stream end at the first word that is
missing. -/
theorem Reads.payloadCut (boundary : Boundary) (position : Nat) (long : Bool) {announced : Nat}
    {bytes : List UInt8} (hmissing : bytes.length < 4 * announced) :
    ∃ begun last,
      (boundary.decoder position).beginPacket order long announced = (begun, []) ∧
        Reads order begun bytes
          (payloadEvents order boundary.register long boundary.cursor (Word.ofStream bytes)) last ∧
        last.finish = .error (.endInPayload (position + 4 * (bytes.length / 4))) := by
  obtain ⟨further, rfl⟩ : ∃ further, announced = further + 1 := ⟨announced - 1, by omega⟩
  have hwords := Word.length_ofStream bytes
  have hfurther : further = (Word.ofStream bytes).length + (further - bytes.length / 4) := by omega
  obtain ⟨before, hpart⟩ := Reads.payloadPart order boundary position long
    (Word.ofStream bytes) (further - bytes.length / 4) none
  rw [← hfurther, Word.flatMap_ofStream, hwords] at hpart
  have hfew : ([] : List UInt8).length + (bytes.drop (4 * (bytes.length / 4))).length ≤ 3 := by
    rw [List.length_nil, List.length_drop]
    omega
  have hboth := hpart.trans (.pending hfew)
  rw [List.take_append_drop, List.append_nil] at hboth
  exact ⟨_, _, rfl, hboth, rfl⟩

/-- A packet with too little payload is read as far as it goes. -/
theorem Reads.cut {raw : UInt32} {announced : Nat} {packet : List UInt32 → Packet}
    {bytes : List UInt8} (hdummy : raw ≠ dummyWord)
    (hbegins : (Header.decode raw).begins? = some (announced, packet))
    (hmissing : bytes.length < 4 * announced) (boundary : Boundary) (offset : Nat) :
    ∃ last, Reads order (boundary.decoder offset) (Word.toBytes raw ++ bytes)
        (boundary.toldPart order announced (packet (Word.ofStream bytes))) last ∧
      last.finish = .error (.endInPayload (offset + (4 + 4 * (bytes.length / 4)))) := by
  rw [← Nat.add_assoc]
  obtain ⟨register, hdecode, rfl⟩ | ⟨opcode, hdecode, rfl⟩ | ⟨_, _, _, _, _, rfl, _⟩ :=
    Header.begins?_cases hbegins
  · obtain ⟨begun, last, hbegun, hpayload, hlast⟩ := Reads.payloadCut order
      { boundary with register } (offset + 4) false hmissing
    have hheader : (boundary.decoder (offset + 4)).headerWord order offset raw =
        (begun, .diagnostic (.write register announced) ::
          (if register = .far ∧ announced ≠ 1 then [.diagnostic (.moveLength announced)] else []) ++
          []) := by
      rw [headerWord, if_neg hdummy, hdecode]
      simp only [Boundary.decoder] at hbegun ⊢
      rw [hbegun]
    have hboth := (Reads.header hheader).trans hpayload
    rw [List.append_nil] at hboth
    exact ⟨last, hboth, hlast⟩
  · obtain ⟨begun, last, hbegun, hpayload, hlast⟩ := Reads.payloadCut order
      boundary (offset + 4) true hmissing
    have hheader : (boundary.decoder (offset + 4)).headerWord order offset raw =
        (begun, [.diagnostic (.continued boundary.register announced)]) := by
      rw [headerWord, if_neg hdummy, hdecode]
      simp only [hbegun]
      rfl
    exact ⟨last, (Reads.header hheader).trans hpayload, hlast⟩
  · exact absurd hmissing (Nat.not_lt_zero _)

/-- A stream that ends with the bytes is read to its end. -/
theorem Reads.ending {offset : Nat} {bytes : List UInt8} {ending : Ending}
    (h : Stage offset bytes (.inl ending)) (boundary : Boundary) :
    ∃ last, Reads order (boundary.decoder offset) bytes (ending.told order boundary) last ∧
      last.finish = ending.finish := by
  cases h with
  | complete hshort =>
      have hfew : ([] : List UInt8).length + bytes.length ≤ 3 := by
        rw [List.length_nil]
        omega
      exact ⟨_, .pending hfew, rfl⟩
  | stopped raw rest hdummy hunknown =>
      have hheader : Reads order (boundary.decoder offset) (Word.toBytes raw)
          (Ending.told order boundary (.stopped raw))
          { boundary.decoder (offset + 4) with phase := .stopped } := by
        apply Reads.header
        rw [headerWord, if_neg hdummy, hunknown]
        rfl
      let stopped := { boundary.decoder (offset + 4) with phase := .stopped }
      obtain ⟨last, hrest, hphase⟩ := @Reads.stopped order stopped rfl rest
      refine ⟨last, ?_, by rw [finish, hphase]; rfl⟩
      simpa using hheader.trans hrest
  | @lost rest hfound =>
      let searching := { boundary.decoder (offset + 4) with phase := .desynced (offset + 4) }
      obtain ⟨last, hrest, hphase⟩ := @Reads.noSync order searching rest rfl (Nat.zero_le 3) hfound
      refine ⟨last, ?_, by rw [finish, hphase]; rfl⟩
      simpa [Ending.told] using (Reads.dummy boundary offset).trans hrest
  | cut raw packet hdummy hbegins hmissing =>
      exact Reads.cut hdummy hbegins hmissing boundary offset

variable (order) in
/-- From a place where a header is due on, a decoder tells what the course of the bytes says. -/
theorem Reads.course (boundary : Boundary) (offset : Nat) (bytes : List UInt8) :
    ∃ last, Reads order (boundary.decoder offset) bytes
        ((Course.ofBytes offset bytes).told order boundary) last ∧
      last.finish = (Course.ofBytes offset bytes).ending.finish := by
  fun_induction Course.ofBytes offset bytes generalizing boundary with
  | case1 offset bytes ending hnext =>
      exact Reads.ending (hnext ▸ stage_nextLeg offset bytes) boundary
  | case2 offset bytes leg later rest hnext ih =>
      obtain ⟨taken, rfl, hleg⟩ := Reads.leg order (hnext ▸ stage_nextLeg offset bytes) boundary
      obtain ⟨last, hrest, hlast⟩ := ih (boundary.pass order leg).1
      rw [Course.told_cons]
      exact ⟨last, hleg.trans hrest, hlast⟩

variable (order) in
/-- A decoder goes past the first sync word, and from there on it tells what the course of the
stream says. -/
theorem Reads.stream {bytes rest : List UInt8} {sync : Nat}
    (hfound : findSync 0 bytes = some (sync, rest)) :
    ∃ last, Reads order start bytes
        (.diagnostic (.syncAt sync) :: (Course.ofBytes (sync + 4) rest).told order .atSync) last ∧
      last.finish = (Course.ofBytes (sync + 4) rest).ending.finish := by
  obtain ⟨taken, rfl, hsync⟩ := @Reads.search order start bytes rest sync rfl (Nat.zero_le 3) hfound
  obtain ⟨last, hrest, hlast⟩ := Reads.course order .atSync (sync + 4) rest
  exact ⟨last, hsync.trans hrest, hlast⟩

variable (order) in
/-- What becomes of a stream is what its course says. -/
theorem decode_of_findSync {bytes rest : List UInt8} {sync : Nat}
    (hfound : findSync 0 bytes = some (sync, rest)) :
    decode order bytes = (Course.ofBytes (sync + 4) rest).ending.finish.map fun ending =>
      ⟨.diagnostic (.syncAt sync) :: ((Course.ofBytes (sync + 4) rest).told order .atSync ++
        ending)⟩ := by
  obtain ⟨last, hreads, hlast⟩ := Reads.stream order hfound
  rw [hreads.decode_eq, hlast]
  rfl

variable (order) in
/-- Without a sync word nothing is decoded. -/
theorem decode_of_noSync {bytes : List UInt8} (hnone : findSync 0 bytes = none) :
    decode order bytes = .error (.noSync 0) := by
  obtain ⟨last, hreads, hphase⟩ := @Reads.noSync order start bytes rfl (Nat.zero_le 3) hnone
  rw [hreads.decode_eq, finish, hphase]
  rfl

end Decoder

end ConfigStream
