import ConfigStream.Proofs.Decoder.Course
import ConfigStream.Proofs.Decoder.FrameWalk

/-!
# Every word is accounted for

The events of a report say how many words they stand for (`Event.words`): a header that announces
payload stands for itself and its payload, and what is told about the payload stands for nothing.
Counted in this way, the events of any stream lead from each sync word to the offset at which sync
is given up, and in the end to the end of the stream (`decode_accounts`). A stream that ends inside
a payload is a fault, at the first offset at which a word is missing.
-/

namespace ConfigStream

namespace Event

/-- The words of a stream that an event stands for. -/
def words : Event → Nat
  | .diagnostic .nop | .diagnostic (.read _) => 1
  | .diagnostic (.write _ words) | .diagnostic (.continued _ words) => 1 + words
  | _ => 0

/-- The payload words that an event announces. -/
def announced? : Event → Option Nat
  | .diagnostic (.write _ words) | .diagnostic (.continued _ words) => some words
  | _ => none

/-- Whether an event tells where the packets of a stream begin or end. -/
def isTurn : Event → Bool
  | .diagnostic (.syncAt _) | .diagnostic (.dummyAt _) | .diagnostic (.noSyncFrom _)
  | .diagnostic (.unknownHeader ..) => true
  | _ => false

/-- The words that events stand for together. -/
def totalWords (events : List Event) : Nat := (events.map words).sum

@[simp] theorem totalWords_nil : totalWords [] = 0 := rfl

@[simp] theorem totalWords_cons (event : Event) (events : List Event) :
    totalWords (event :: events) = event.words + totalWords events :=
  rfl

/-- An event that stands for no word and does not end the packets. -/
def IsQuiet (event : Event) : Prop := event.isTurn = false ∧ event.words = 0

theorem isQuiet_of_isFrameData {event : Event} (h : event.isFrameData = true) : event.IsQuiet := by
  cases event with
  | bit => exact ⟨rfl, rfl⟩
  | diagnostic found => cases found <;> first | exact ⟨rfl, rfl⟩ | cases h

/-- A complaint about the length of a move, if there is one, stands for nothing. -/
theorem isQuiet_of_mem_moveLength {wrong : Prop} [Decidable wrong] {words : Nat}
    {event : Event} (h : event ∈ if wrong then [.diagnostic (.moveLength words)] else []) :
    event.IsQuiet := by
  split at h
  · exact List.mem_singleton.1 h ▸ ⟨rfl, rfl⟩
  · cases h

end Event

/-! ## What a packet tells -/

namespace Decoder

variable {order : FrameOrder} {register : Register} {long : Bool} {event : Event}

theorem isQuiet_of_mem_payloadEvents {cursor : FrameCursor} {words : List UInt32}
    (h : event ∈ payloadEvents order register long cursor words) : event.IsQuiet := by
  unfold payloadEvents at h
  split at h
  · exact Event.isQuiet_of_isFrameData (FrameCursor.isFrameData_of_mem_takeAll h)
  · obtain ⟨word, -, hword⟩ := List.mem_flatMap.1 h
    unfold wordEvents at hword
    split_ifs at hword <;> simp only [List.mem_singleton, List.not_mem_nil] at hword <;>
      exact hword ▸ ⟨rfl, rfl⟩

theorem isQuiet_of_mem_endEvents {last : Option UInt32} {crc : UInt32}
    (h : event ∈ endEvents register long last crc) : event.IsQuiet := by
  unfold endEvents at h
  cases last <;> split_ifs at h <;> simp_all [Event.IsQuiet, Event.isTurn, Event.words]

end Decoder

namespace Boundary

variable {order : FrameOrder}

theorem isQuiet_of_mem_told {boundary : Boundary} {long : Bool} {words : List UInt32}
    {event : Event} (h : event ∈ boundary.told order long words) : event.IsQuiet := by
  rcases List.mem_append.1 h with h | h
  · exact Decoder.isQuiet_of_mem_payloadEvents h
  · exact Decoder.isQuiet_of_mem_endEvents h

variable (order) in
/-- A packet tells its header first, and then nothing that stands for a word. -/
theorem take_eq_cons (boundary : Boundary) (packet : Packet) :
    ∃ header quiet, (boundary.take order packet).2 = header :: quiet ∧ header.isTurn = false ∧
      header.words = 1 + packet.payload.length ∧ ∀ event ∈ quiet, event.IsQuiet := by
  cases packet with
  | bare opcode register announced =>
      refine ⟨_, [], rfl, ?_, ?_, fun _ h => by cases h⟩ <;> cases opcode <;> rfl
  | write register words =>
      refine ⟨_, _, rfl, rfl, rfl, fun event hevent => ?_⟩
      rcases List.mem_append.1 hevent with hevent | hevent
      · exact Event.isQuiet_of_mem_moveLength hevent
      · exact isQuiet_of_mem_told hevent
  | long opcode words => exact ⟨_, _, rfl, rfl, rfl, fun event => isQuiet_of_mem_told⟩

end Boundary

/-! ## Accounts -/

/-- From a place where a header is due, the events account for the words of a stream up to its end.
A stream that ends inside a payload has the offset of the first missing word. -/
inductive Accounted (bytes : List UInt8) : Nat → List Event → Option Nat → Prop where
  | complete {place : Nat} (hle : place ≤ bytes.length) (hshort : bytes.length < place + 4) :
      Accounted bytes place [] none
  | stopped (place : Nat) (packetType : UInt8) (header : UInt32) :
      Accounted bytes place [.diagnostic (.unknownHeader packetType header)] none
  | lost {place : Nat}
      (hnone : ∀ offset, place + 4 ≤ offset → ¬ Word.StandsAt syncWord bytes offset) :
      Accounted bytes place
        [.diagnostic (.dummyAt place), .diagnostic (.noSyncFrom (place + 4))] none
  | cut {place words present : Nat} {header : Event} {quiet : List Event}
      (hannounced : header.announced? = some words) (hquiet : ∀ event ∈ quiet, event.IsQuiet)
      (hmissing : bytes.length < place + 4 * (1 + words))
      (hle : place + 4 * present ≤ bytes.length)
      (hshort : bytes.length < place + 4 * present + 4) :
      Accounted bytes place (header :: quiet) (some (place + 4 * present))
  | packet {place : Nat} {event : Event} {events : List Event} {ending : Option Nat}
      (hturn : event.isTurn = false)
      (hrest : Accounted bytes (place + 4 * event.words) events ending) :
      Accounted bytes place (event :: events) ending
  | detour {place sync : Nat} {events : List Event} {ending : Option Nat}
      (hsync : FirstSync bytes (place + 4) sync)
      (hrest : Accounted bytes (sync + 4) events ending) :
      Accounted bytes place
        (.diagnostic (.dummyAt place) :: .diagnostic (.syncAt sync) :: events) ending

namespace Accounted

open Event (totalWords)

variable {order : FrameOrder} {bytes : List UInt8} {place : Nat} {ending : Option Nat}

/-- Quiet events change no account. -/
theorem append_quiet {quiet events : List Event} (hquiet : ∀ event ∈ quiet, event.IsQuiet)
    (h : Accounted bytes place events ending) : Accounted bytes place (quiet ++ events) ending := by
  induction quiet with
  | nil => exact h
  | cons event quiet ih =>
      obtain ⟨hturn, hwords⟩ := hquiet event List.mem_cons_self
      refine .packet hturn ?_
      rw [hwords]
      exact ih fun other hother => hquiet other (List.mem_cons_of_mem event hother)

/-- A leg is accounted for. -/
theorem pass {later : Nat} {rest : List UInt8} {leg : Leg} {events : List Event}
    (h : Stage place (bytes.drop place) (.inr (leg, later, rest))) (boundary : Boundary)
    (hrest : Accounted bytes later events ending) :
    Accounted bytes place ((boundary.pass order leg).2 ++ events) ending := by
  generalize hbytes : bytes.drop place = here at h
  cases h with
  | @detour sync between rest hfound =>
      have hbetween : between = bytes.drop (place + 4) := by
        rw [← List.drop_drop, hbytes]
        rfl
      rw [hbetween] at hfound
      exact .detour (FirstSync.of_findSync hfound).1 hrest
  | packet raw rest hheader =>
      rename_i packet
      obtain ⟨header, quiet, htake, hturn, hwords, hquiet⟩ := boundary.take_eq_cons order packet
      rw [Boundary.pass, htake]
      refine .packet hturn (append_quiet hquiet ?_)
      rw [hwords, Nat.mul_add]
      exact hrest

/-- A stream that ends inside a packet is accounted for up to its last whole word. -/
theorem toldPart {raw : UInt32} {announced : Nat} {packet : List UInt32 → Packet}
    {rest : List UInt8} (hbytes : bytes.drop place = Word.toBytes raw ++ rest)
    (hbegins : (Header.decode raw).begins? = some (announced, packet))
    (hmissing : rest.length < 4 * announced) (boundary : Boundary) :
    Accounted bytes place (boundary.toldPart order announced (packet (Word.ofStream rest)))
      (some (place + (4 + 4 * (rest.length / 4)))) := by
  have hlength := congrArg List.length hbytes
  rw [List.length_drop, List.length_append, Word.length_toBytes] at hlength
  have hcut {header : Event} {quiet : List Event} (hannounced : header.announced? = some announced)
      (hquiet : ∀ event ∈ quiet, event.IsQuiet) :
      Accounted bytes place (header :: quiet) (some (place + 4 * (1 + rest.length / 4))) :=
    .cut hannounced hquiet (by omega) (by omega) (by omega)
  rw [Nat.mul_add, Nat.mul_one] at hcut
  obtain ⟨register, -, rfl⟩ | ⟨opcode, -, rfl⟩ | ⟨_, _, _, _, _, rfl, _⟩ :=
    Header.begins?_cases hbegins
  · refine hcut rfl fun event hevent => ?_
    rcases List.mem_append.1 hevent with hevent | hevent
    · exact Event.isQuiet_of_mem_moveLength hevent
    · exact Decoder.isQuiet_of_mem_payloadEvents hevent
  · exact hcut rfl fun event => Decoder.isQuiet_of_mem_payloadEvents
  · exact absurd hmissing (Nat.not_lt_zero _)

/-- An ending is accounted for, be it complete or not. -/
theorem ofEnding {final : Ending} (h : Stage place (bytes.drop place) (.inl final))
    (hle : place ≤ bytes.length) (boundary : Boundary) :
    (∀ last, final.finish = .ok last →
        Accounted bytes place (final.told order boundary ++ last) none) ∧
      ∀ fault, final.finish = .error fault → ∃ stop, fault = .endInPayload stop ∧
        Accounted bytes place (final.told order boundary) (some stop) := by
  generalize hbytes : bytes.drop place = here at h
  cases h with
  | complete hshort =>
      rw [← hbytes, List.length_drop] at hshort
      refine ⟨fun last hlast => ?_, fun fault hfault => by cases hfault⟩
      obtain rfl := Except.ok.inj hlast
      exact .complete hle (by omega)
  | stopped raw rest hdummy hunknown =>
      refine ⟨fun last hlast => ?_, fun fault hfault => by cases hfault⟩
      obtain rfl := Except.ok.inj hlast
      exact .stopped place _ raw
  | @lost rest hfound =>
      have hrest : rest = bytes.drop (place + 4) := by
        rw [← List.drop_drop, hbytes]
        rfl
      rw [hrest] at hfound
      refine ⟨fun last hlast => ?_, fun fault hfault => by cases hfault⟩
      obtain rfl := Except.ok.inj hlast
      exact .lost (findSync_drop_eq_none_iff.1 hfound)
  | cut raw packet hdummy hbegins hmissing =>
      refine ⟨fun last hlast => (by cases hlast), fun fault hfault => ?_⟩
      exact ⟨_, (Except.error.inj hfault).symm, toldPart hbytes hbegins hmissing boundary⟩

variable (order) in
/-- The course of a stream is accounted for, be it complete or not. -/
theorem ofCourse (rest : List UInt8) (hrest : rest = bytes.drop place)
    (hle : place ≤ bytes.length) (boundary : Boundary) :
    (∀ last, (Course.ofBytes place rest).ending.finish = .ok last →
        Accounted bytes place ((Course.ofBytes place rest).told order boundary ++ last) none) ∧
      ∀ fault, (Course.ofBytes place rest).ending.finish = .error fault →
        ∃ stop, fault = .endInPayload stop ∧
          Accounted bytes place ((Course.ofBytes place rest).told order boundary) (some stop) := by
  fun_induction Course.ofBytes place rest generalizing boundary with
  | case1 place rest final hnext =>
      have hstage := hnext ▸ stage_nextLeg place rest
      rw [hrest] at hstage
      exact ofEnding hstage hle boundary
  | case2 place rest leg later after hnext ih =>
      have hstage := hnext ▸ stage_nextLeg place rest
      obtain ⟨taken, htaken, hlater, -⟩ := hstage.taken
      have hlength := congrArg List.length (hrest.symm.trans htaken)
      rw [List.length_drop, List.length_append] at hlength
      have hafter : after = bytes.drop later := by
        rw [hlater, ← List.drop_drop, ← hrest, htaken, List.drop_left]
      rw [hrest] at hstage
      obtain ⟨hcomplete, hcut⟩ := ih hafter (by omega) (boundary.pass order leg).1
      rw [Course.told_cons]
      constructor
      · intro last hlast
        rw [List.append_assoc]
        exact pass hstage boundary (hcomplete last hlast)
      · intro fault hfault
        obtain ⟨stop, hstop, haccount⟩ := hcut fault hfault
        exact ⟨stop, hstop, pass hstage boundary haccount⟩

/-! ## What an account says -/

/-- Up to a place where sync is given up, the offset grows by what the events stand for. -/
theorem dummyAt_eq {events between back : List Event} {dummy : Nat}
    (h : Accounted bytes place events ending)
    (hevents : events = between ++ .diagnostic (.dummyAt dummy) :: back)
    (hbetween : ∀ offset, .diagnostic (.dummyAt offset) ∉ between) :
    dummy = place + 4 * totalWords between := by
  induction h generalizing between with
  | complete => simp at hevents
  | @stopped place =>
      cases between <;> simp at hevents
  | @lost place =>
      cases between with
      | nil =>
          simp at hevents
          simp [hevents]
      | cons event between =>
          obtain ⟨rfl, -⟩ := List.cons.inj hevents
          exact absurd List.mem_cons_self (hbetween place)
  | @cut place words present header quiet hannounced hquiet =>
      cases between with
      | nil =>
          obtain ⟨rfl, -⟩ := List.cons.inj hevents
          cases hannounced
      | cons event between =>
          obtain ⟨-, rfl⟩ := List.cons.inj hevents
          cases (hquiet _ (List.mem_append_right between List.mem_cons_self)).1
  | @packet place event events ending hturn hrest ih =>
      cases between with
      | nil =>
          obtain ⟨rfl, -⟩ := List.cons.inj hevents
          cases hturn
      | cons other between =>
          obtain ⟨rfl, hlater⟩ := List.cons.inj hevents
          have hdummy := ih hlater fun offset => List.not_mem_of_not_mem_cons (hbetween offset)
          rw [hdummy, Event.totalWords_cons]
          omega
  | @detour place sync events ending hsync hrest ih =>
      cases between with
      | nil =>
          obtain ⟨hdummy, -⟩ := List.cons.inj hevents
          cases hdummy
          rfl
      | cons event between =>
          obtain ⟨rfl, -⟩ := List.cons.inj hevents
          exact absurd List.mem_cons_self (hbetween place)

/-- The later events account for the later part of the stream, unless they begin between a place
where sync is given up and the one where it is found again. -/
theorem of_append {events front back : List Event} (h : Accounted bytes place events ending)
    (hevents : events = front ++ back) :
    (∃ later, Accounted bytes later back ending) ∨
      (∃ sync late, back = .diagnostic (.syncAt sync) :: late ∧
        Accounted bytes (sync + 4) late ending) ∨
      (∃ offset, back = [.diagnostic (.noSyncFrom offset)]) ∨ ∀ event ∈ back, event.IsQuiet := by
  induction h generalizing front with
  | @complete place hle hshort =>
      obtain ⟨-, rfl⟩ := List.append_eq_nil_iff.1 hevents.symm
      exact .inl ⟨place, .complete hle hshort⟩
  | stopped place packetType header =>
      cases front with
      | nil => exact .inl ⟨place, (show _ = back from hevents) ▸ .stopped place packetType header⟩
      | cons event front =>
          obtain ⟨-, rfl⟩ := List.append_eq_nil_iff.1 (List.cons.inj hevents).2.symm
          exact .inr (.inr (.inr fun event hevent => by cases hevent))
  | @lost place hnone =>
      match front with
      | [] => exact .inl ⟨place, (show _ = back from hevents) ▸ .lost hnone⟩
      | [_] => exact .inr (.inr (.inl ⟨place + 4, (List.cons.inj hevents).2.symm⟩))
      | _ :: _ :: front =>
          obtain ⟨-, rfl⟩ :=
            List.append_eq_nil_iff.1 (List.cons.inj (List.cons.inj hevents).2).2.symm
          exact .inr (.inr (.inr fun event hevent => by cases hevent))
  | @cut place words present header quiet hannounced hquiet hmissing hle hshort =>
      cases front with
      | nil =>
          obtain rfl : header :: quiet = back := hevents
          exact .inl ⟨place, .cut hannounced hquiet hmissing hle hshort⟩
      | cons event front =>
          obtain ⟨-, rfl⟩ := List.cons.inj hevents
          exact .inr (.inr (.inr fun event hevent => hquiet event (List.mem_append_right _ hevent)))
  | @packet place event events ending hturn hrest ih =>
      cases front with
      | nil => exact .inl ⟨place, (show _ = back from hevents) ▸ .packet hturn hrest⟩
      | cons other front => exact ih (List.cons.inj hevents).2
  | @detour place sync events ending hsync hrest ih =>
      match front with
      | [] => exact .inl ⟨place, (show _ = back from hevents) ▸ .detour hsync hrest⟩
      | [_] => exact .inr (.inl ⟨sync, events, (List.cons.inj hevents).2.symm, hrest⟩)
      | _ :: _ :: front => exact ih (List.cons.inj (List.cons.inj hevents).2).2

/-- From a sync word on, the events account for the rest of the stream. -/
theorem of_syncAt {front back : List Event} {sync : Nat}
    (h : Accounted bytes place (front ++ .diagnostic (.syncAt sync) :: back) ending) :
    Accounted bytes (sync + 4) back ending := by
  rcases h.of_append rfl with ⟨later, hlater⟩ | ⟨_, _, hback, hlate⟩ | ⟨_, hback⟩ | hquiet
  · cases hlater with
    | cut hannounced => cases hannounced
    | packet hturn => cases hturn
  · obtain ⟨hsync, rfl⟩ := List.cons.inj hback
    cases hsync
    exact hlate
  · cases hback
  · cases (hquiet _ List.mem_cons_self).1

/-- Where sync is given up, it is found again at the next sync word, if there is one. -/
theorem after_dummyAt {front back : List Event} {dummy : Nat}
    (h : Accounted bytes place (front ++ .diagnostic (.dummyAt dummy) :: back) ending) :
    (∃ sync late, back = .diagnostic (.syncAt sync) :: late ∧ FirstSync bytes (dummy + 4) sync) ∨
      back = [.diagnostic (.noSyncFrom (dummy + 4))] ∧
        ∀ offset, dummy + 4 ≤ offset → ¬ Word.StandsAt syncWord bytes offset := by
  rcases h.of_append rfl with ⟨later, hlater⟩ | ⟨_, _, hback, -⟩ | ⟨_, hback⟩ | hquiet
  · cases hlater with
    | lost hnone => exact .inr ⟨rfl, hnone⟩
    | detour hsync => exact .inl ⟨_, _, rfl, hsync⟩
    | cut hannounced => cases hannounced
    | packet hturn => cases hturn
  · cases hback
  · cases hback
  · cases (hquiet _ List.mem_cons_self).1

/-- After the last sync word the events lead to the end of the stream, unless the packets end before
it. -/
theorem last {events : List Event} (h : Accounted bytes place events none)
    (hsync : ∀ offset, .diagnostic (.syncAt offset) ∉ events) :
    (∃ packetType header, events.getLast? = some (.diagnostic (.unknownHeader packetType header))) ∨
      (∃ offset, events.getLast? = some (.diagnostic (.noSyncFrom offset))) ∨
      place + 4 * totalWords events ≤ bytes.length ∧
        bytes.length < place + 4 * totalWords events + 4 := by
  generalize hending : none = ending at h
  induction h with
  | complete hle hshort => exact .inr (.inr ⟨hle, hshort⟩)
  | stopped place packetType header => exact .inl ⟨packetType, header, rfl⟩
  | @lost place => exact .inr (.inl ⟨place + 4, rfl⟩)
  | cut => cases hending
  | @packet place event events ending hturn hrest ih =>
      rcases ih (fun offset => List.not_mem_of_not_mem_cons (hsync offset)) hending with
        ⟨packetType, header, hlast⟩ | ⟨offset, hlast⟩ | ⟨hle, hshort⟩
      · exact .inl ⟨packetType, header, by rw [List.getLast?_cons, hlast]; rfl⟩
      · exact .inr (.inl ⟨offset, by rw [List.getLast?_cons, hlast]; rfl⟩)
      · rw [Event.totalWords_cons]
        exact .inr (.inr ⟨by omega, by omega⟩)
  | @detour place sync =>
      exact absurd (List.mem_cons_of_mem _ List.mem_cons_self) (hsync sync)

/-- From a place where a header is due, and without another sync word, the events lead to a header
that announces more payload than there is. The words up to `stop` are whole. -/
structure IsCut (bytes : List UInt8) (place : Nat) (between : List Event) (header : Event)
    (quiet : List Event) (stop : Nat) : Prop where
  noSync : ∀ offset, .diagnostic (.syncAt offset) ∉ between ++ header :: quiet
  announces : ∃ words, header.announced? = some words ∧
    bytes.length < place + 4 * (totalWords between + 1 + words)
  isQuiet : ∀ event ∈ quiet, event.IsQuiet
  whole : ∃ present, stop = place + 4 * present ∧ stop ≤ bytes.length ∧ bytes.length < stop + 4

/-- A stream that ends inside a payload does so after its last sync word. -/
theorem isCut {events : List Event} {stop : Nat} (h : Accounted bytes place events (some stop)) :
    (∃ between header quiet, events = between ++ header :: quiet ∧
        IsCut bytes place between header quiet stop) ∨
      ∃ front sync between header quiet,
        events = front ++ .diagnostic (.syncAt sync) :: (between ++ header :: quiet) ∧
          IsCut bytes (sync + 4) between header quiet stop := by
  generalize hending : some stop = ending at h
  induction h with
  | complete | stopped | lost => cases hending
  | @cut place words present header quiet hannounced hquiet hmissing hle hshort =>
      obtain rfl := Option.some.inj hending
      refine .inl ⟨[], header, quiet, rfl, ?_, ⟨words, hannounced, ?_⟩, hquiet,
        ⟨present, rfl, hle, hshort⟩⟩
      · intro offset hmem
        rcases List.mem_cons.1 hmem with rfl | hmem
        · cases hannounced
        · cases (hquiet _ hmem).1
      · rw [Event.totalWords_nil, Nat.zero_add]
        exact hmissing
  | @packet place event events ending hturn hrest ih =>
      rcases ih hending with ⟨between, header, quiet, rfl, hcut⟩ |
        ⟨front, sync, between, header, quiet, rfl, hcut⟩
      · obtain ⟨words, hannounced, hmissing⟩ := hcut.announces
        obtain ⟨present, hstop, hwhole⟩ := hcut.whole
        refine .inl ⟨event :: between, header, quiet, rfl, ?_, ⟨words, hannounced, ?_⟩,
          hcut.isQuiet, ⟨event.words + present, by omega, hwhole⟩⟩
        · intro offset hmem
          rcases List.mem_cons.1 hmem with rfl | hmem
          · cases hturn
          · exact hcut.noSync offset hmem
        · rw [Event.totalWords_cons]
          omega
      · exact .inr ⟨event :: front, sync, between, header, quiet, rfl, hcut⟩
  | @detour place sync events ending hsync hrest ih =>
      rcases ih hending with ⟨between, header, quiet, rfl, hcut⟩ |
        ⟨front, later, between, header, quiet, rfl, hcut⟩
      · exact .inr ⟨[_], sync, between, header, quiet, rfl, hcut⟩
      · exact .inr ⟨_ :: _ :: front, later, between, header, quiet, rfl, hcut⟩

end Accounted

/-! ## Whole streams -/

open Event (totalWords)

/-- The events of a complete stream account for all of its words. -/
structure AccountsFor (bytes : List UInt8) (events : List Event) : Prop where
  /-- Sync is found first of all. -/
  starts : ∃ sync late, events = .diagnostic (.syncAt sync) :: late ∧ FirstSync bytes 0 sync
  /-- From a sync word to the next place where it is given up, the offset grows by the words. -/
  segment : ∀ front sync between dummy back,
    events = front ++
      .diagnostic (.syncAt sync) :: (between ++ .diagnostic (.dummyAt dummy) :: back) →
    (∀ offset, .diagnostic (.dummyAt offset) ∉ between) →
    dummy = sync + 4 + 4 * totalWords between
  /-- Where sync is given up, it is found again at the next sync word, if there is one. -/
  detour : ∀ front dummy back, events = front ++ .diagnostic (.dummyAt dummy) :: back →
    (∃ sync late, back = .diagnostic (.syncAt sync) :: late ∧ FirstSync bytes (dummy + 4) sync) ∨
      back = [.diagnostic (.noSyncFrom (dummy + 4))] ∧
        ∀ offset, dummy + 4 ≤ offset → ¬ Word.StandsAt syncWord bytes offset
  /-- After the last sync word the words lead to the end of the stream, with less than a word left,
  unless the packets end with a header of unknown type or with a search that fails. -/
  last : ∀ front sync back, events = front ++ .diagnostic (.syncAt sync) :: back →
    (∀ offset, .diagnostic (.syncAt offset) ∉ back) →
    (∃ packetType header,
        events.getLast? = some (.diagnostic (.unknownHeader packetType header))) ∨
      (∃ offset, events.getLast? = some (.diagnostic (.noSyncFrom offset))) ∨
      sync + 4 + 4 * totalWords back ≤ bytes.length ∧
        bytes.length < sync + 4 + 4 * totalWords back + 4

/-- The events told before a stream ends inside a payload: after the last sync word some header
announces payload that reaches past the end, and `stop` is the offset of the first word that is
missing. -/
def EndsInPayload (bytes : List UInt8) (events : List Event) (stop : Nat) : Prop :=
  ∃ front sync between header quiet words,
    events = front ++ .diagnostic (.syncAt sync) :: (between ++ header :: quiet) ∧
      (∀ offset, .diagnostic (.syncAt offset) ∉ between ++ header :: quiet) ∧
      (∀ event ∈ quiet, event.IsQuiet) ∧
      header.announced? = some words ∧
      bytes.length < sync + 4 + 4 * (totalWords between + 1 + words) ∧
      stop = bytes.length - (bytes.length - sync) % 4

namespace Accounted

variable {bytes : List UInt8} {events : List Event} {sync : Nat}

/-- An account that begins with a sync word leads to one from any later sync word. -/
theorem from_syncAt {ending : Option Nat} {front back : List Event} {other : Nat}
    (h : Accounted bytes (sync + 4) events ending)
    (hevents :
      .diagnostic (.syncAt sync) :: events = front ++ .diagnostic (.syncAt other) :: back) :
    Accounted bytes (other + 4) back ending := by
  cases front with
  | nil =>
      obtain ⟨hother, rfl⟩ := List.cons.inj hevents
      cases hother
      exact h
  | cons event front =>
      obtain ⟨-, rfl⟩ := List.cons.inj hevents
      exact h.of_syncAt

/-- A complete account that begins with the first sync word is one of the whole stream. -/
theorem accountsFor (hsync : FirstSync bytes 0 sync) (h : Accounted bytes (sync + 4) events none) :
    AccountsFor bytes (.diagnostic (.syncAt sync) :: events) where
  starts := ⟨sync, events, rfl, hsync⟩
  segment := fun _ _ _ _ _ hevents => (h.from_syncAt hevents).dummyAt_eq rfl
  detour := by
    intro front dummy back hevents
    cases front with
    | nil => cases (List.cons.inj hevents).1
    | cons event front =>
        obtain ⟨-, rfl⟩ := List.cons.inj hevents
        exact h.after_dummyAt
  last := by
    intro front other back hevents hnone
    have hends (event : Event) (hlast : back.getLast? = some event) :
        (Event.diagnostic (.syncAt sync) :: events).getLast? = some event := by
      rw [hevents, List.getLast?_append, List.getLast?_cons, hlast]
      rfl
    rcases (h.from_syncAt hevents).last hnone with
      ⟨packetType, header, hlast⟩ | ⟨offset, hlast⟩ | hplace
    · exact .inl ⟨packetType, header, hends _ hlast⟩
    · exact .inr (.inl ⟨offset, hends _ hlast⟩)
    · exact .inr (.inr hplace)

/-- The end of a cut, from the last sync word on. -/
theorem IsCut.endsInPayload {between quiet : List Event} {header : Event} {stop : Nat}
    (h : IsCut bytes (sync + 4) between header quiet stop) (front : List Event) :
    EndsInPayload bytes (front ++ .diagnostic (.syncAt sync) :: (between ++ header :: quiet))
      stop := by
  obtain ⟨words, hannounced, hmissing⟩ := h.announces
  obtain ⟨present, rfl, hle, hshort⟩ := h.whole
  exact ⟨front, sync, between, header, quiet, words, rfl, h.noSync, h.isQuiet, hannounced, hmissing,
    by omega⟩

/-- An account that begins with the first sync word and ends inside a payload. -/
theorem endsInPayload {stop : Nat} (h : Accounted bytes (sync + 4) events (some stop)) :
    EndsInPayload bytes (.diagnostic (.syncAt sync) :: events) stop := by
  rcases h.isCut with ⟨between, header, quiet, rfl, hcut⟩ |
    ⟨front, other, between, header, quiet, rfl, hcut⟩
  · exact hcut.endsInPayload []
  · exact hcut.endsInPayload (_ :: front)

end Accounted

/-- What becomes of a stream, whatever its bytes are. It cannot be decoded for want of sync exactly
if the sync word stands nowhere in it. The only other fault is that it ends inside a payload. A
stream that can be decoded is accounted for by the events of its report. -/
theorem decode_accounts (order : FrameOrder) (bytes : List UInt8) :
    (decode order bytes = .error (.noSync 0) ↔ ¬ [0xAA, 0x99, 0x55, 0x66] <:+: bytes) ∧
      (∀ fault, decode order bytes = .error fault → fault = .noSync 0 ∨
        ∃ stop, fault = .endInPayload stop ∧
          EndsInPayload bytes (Decoder.after order bytes).2 stop) ∧
      ∀ report, decode order bytes = .ok report → AccountsFor bytes report.events := by
  have hstands : ¬ [0xAA, 0x99, 0x55, 0x66] <:+: bytes ↔ findSync 0 bytes = none := by
    rw [findSync_eq_none_iff, ← not_exists, Word.exists_standsAt_iff]
    rfl
  cases hfound : findSync 0 bytes with
  | none =>
      have hdecode := Decoder.decode_of_noSync order hfound
      refine ⟨⟨fun _ => hstands.2 hfound, fun _ => hdecode⟩, fun fault hfault => ?_,
        fun report hreport => ?_⟩
      · exact .inl (Except.error.inj (hfault.symm.trans hdecode))
      · cases hreport.symm.trans hdecode
  | some found =>
      obtain ⟨sync, rest⟩ := found
      obtain ⟨hsync, hrest⟩ := @FirstSync.of_findSync bytes rest 0 sync hfound
      have hle : sync + 4 ≤ bytes.length := hsync.standsAt.le
      obtain ⟨hcomplete, hcut⟩ :=
        Accounted.ofCourse order rest hrest hle .atSync
      obtain ⟨last, hreads, -⟩ := Decoder.Reads.stream order hfound
      have hdecode := Decoder.decode_of_findSync order hfound
      cases hfinish : (Course.ofBytes (sync + 4) rest).ending.finish with
      | ok ending =>
          rw [hfinish] at hdecode
          refine ⟨⟨fun h => ?_, fun h => ?_⟩, fun fault hfault => ?_, fun report hreport => ?_⟩
          · cases h.symm.trans hdecode
          · cases (hstands.1 h).symm.trans hfound
          · cases hfault.symm.trans hdecode
          · obtain rfl := Except.ok.inj (hreport.symm.trans hdecode)
            exact (hcomplete ending hfinish).accountsFor hsync
      | error fault =>
          obtain ⟨stop, rfl, haccount⟩ := hcut fault hfinish
          rw [hfinish] at hdecode
          refine ⟨⟨fun h => ?_, fun h => ?_⟩, fun fault hfault => .inr ?_,
            fun report hreport => ?_⟩
          · cases h.symm.trans hdecode
          · cases (hstands.1 h).symm.trans hfound
          · refine ⟨stop, Except.error.inj (hfault.symm.trans hdecode), ?_⟩
            rw [hreads.after_eq]
            exact haccount.endsInPayload
          · cases hreport.symm.trans hdecode

/-- A read header with a count, a command with a type 2 packet after it, and a detour to a sync word
that is not aligned with the first: five words lead from the one sync word to where it is given up.
A stream that ends in the second of two words of frame data, and one that has no sync word. -/
theorem decode_accounts_detour :
    let order := FrameOrder.empty
    let between : List Event :=
      [.diagnostic (.read .fdri), .diagnostic (.write .cmd 1), .diagnostic (.command ⟨7⟩),
        .diagnostic (.continued .cmd 1), .diagnostic (.data .cmd 9)]
    let report : Report :=
      ⟨[.diagnostic (.syncAt 1)] ++ between ++ [.diagnostic (.dummyAt 25), .diagnostic (.syncAt 31),
        .diagnostic .nop]⟩
    let front := [0] ++ [syncWord, (Header.type1 .read .fdri 5).encode,
      (Header.write .cmd 1).encode, 7, (Header.type2 .write 1).encode, 9,
      dummyWord].flatMap Word.toBytes
    let whole := front ++ [1, 2] ++ [syncWord, Header.nop.encode].flatMap Word.toBytes ++ [3]
    let cut := [0] ++ [syncWord, (Header.write .fdri 2).encode, 7].flatMap Word.toBytes ++ [1, 2, 3]
    (decode order whole = .ok report ∧ AccountsFor whole report.events ∧
        25 = 1 + 4 + 4 * totalWords between) ∧
      (decode order cut = .error (.endInPayload 13) ∧
        EndsInPayload cut (Decoder.after order cut).2 13) ∧
      decode order [0xAA, 0x99, 0x55] = .error (.noSync 0) := by
  intro order between report front whole cut
  have hwhole : decode order whole = .ok report := by decide +kernel
  have hcut : decode order cut = .error (.endInPayload 13) := by decide +kernel
  obtain ⟨-, -, haccount⟩ := decode_accounts order whole
  obtain ⟨-, hfault, -⟩ := decode_accounts order cut
  obtain ⟨hnone, -, -⟩ := decode_accounts order [0xAA, 0x99, 0x55]
  refine ⟨⟨hwhole, haccount report hwhole, ?_⟩, ⟨hcut, ?_⟩, hnone.2 (by decide)⟩
  · exact (haccount report hwhole).segment [] 1 between 25 _ rfl (by simp [between])
  · rcases hfault _ hcut with hnoSync | ⟨stop, hstop, hends⟩
    · cases hnoSync
    · obtain rfl := Fault.endInPayload.inj hstop
      exact hends

end ConfigStream
