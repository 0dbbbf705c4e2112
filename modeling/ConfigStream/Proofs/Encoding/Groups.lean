import ConfigStream.Proofs.Checksum.OneWord
import ConfigStream.Proofs.Encoding.Calls
import ConfigStream.Proofs.Frame.Syndrome

/-!
# Groups of frame data

After the header, frame data is written in groups only: a whole frame that passes its check, the
address of the frame, and the check sum of both (`Encoding.Grouped`). A packet of frame data among
the packets of a stream is thus the first of a group (`Encoding.Grouped.split`). What a decoder
hears of a group, and where it is after it, is known for any data in place of the frame
(`Boundary.takeAll_group`).
-/

namespace ConfigStream

open Encoding Writer

/-! ## The packets of a group -/

namespace Encoding

/-- The check sum of the data and the address of a group. -/
def groupSum (crc : UInt32) (words : List UInt32) (address : UInt32) : UInt32 :=
  Crc.extend Register.far.raw.toUInt32 address
    (Crc.extendAll crc (words.map fun word => (Register.fdri.raw.toUInt32, word)))

/-- Data that differs in one word has another check sum, address and all. -/
theorem groupSum_replace_ne {word other : UInt32} (h : word ≠ other) (crc address : UInt32)
    (before after : List UInt32) :
    groupSum crc (before ++ word :: after) address ≠
      groupSum crc (before ++ other :: after) address := by
  intro hsame
  have hdata := (UInt32.xor_right_inj _).1 (Crc.extend_eq_iff.1 hsame)
  rw [List.map_append, List.map_append] at hdata
  exact Crc.extendAll_replace_ne h _ crc _ _ hdata

/-- The packets of a group with the given data, address and check sum. -/
def groupPackets (words : List UInt32) (address written : UInt32) : List Packet :=
  [.write .fdri words, .write .far [address], .write .crc [written]]

/-- What the end of a group tells: the check of the frame, its address and the check of the check
sum. -/
def groupEnd (frame : UInt32) (observed computed : UInt64) (address written found : UInt32) :
    List Event :=
  [.diagnostic (.eccCheck frame observed computed), .diagnostic (.write .far 1),
    .diagnostic (.moveTo address), .diagnostic (.write .crc 1),
    .diagnostic (.crcCheck written found)]

end Encoding

namespace Boundary

variable {order : FrameOrder}

/-- What a decoder at the start of a frame hears of a group, whatever its data and its check sum.
The group leaves nothing behind but its address. -/
theorem takeAll_group (register : Register) (crc place address written : UInt32)
    {words : List UInt32} (h : words.length = Frame.wordCount) :
    (⟨register, crc, .start place⟩ : Boundary).takeAll order
        (groupPackets words address written) =
      (⟨.crc, 0, .start (FrameCursor.after order address)⟩,
        .diagnostic (.write .fdri words.length) :: FrameCursor.dataEvents place 0 words ++
          groupEnd place (FrameCursor.observedAfter 0 0 words)
            (FrameCursor.computedAfter 0 0 words) address written
            (groupSum crc words address)) := by
  simp only [groupPackets, takeAll, take_frame register crc place h, take_far, take_crc_start]
  simp [groupEnd, groupSum]

/-- The packets of calls that begin with a group. -/
theorem packets_frameGroup (register : Register) (crc place address : UInt32) (frame : Frame)
    (calls : List Call) :
    (⟨register, crc, .start place⟩ : Boundary).packets order
        (frameGroup address frame ++ calls) =
      groupPackets frame.words.toList address (groupSum crc frame.words.toList address) ++
        (⟨.crc, 0, .start (FrameCursor.after order address)⟩ : Boundary).packets order calls := by
  have hframed := frameGroup_framed address frame
  simp only [frameGroup, List.forall_mem_cons] at hframed
  obtain ⟨hdata, hfar, hflush, -⟩ := hframed
  simp only [frameGroup, List.cons_append, List.nil_append, packets, hear_framed hdata,
    hear_framed hfar, hear_framed hflush]
  rfl

/-- What is heard of the calls for a group. -/
theorem hearAll_group (register : Register) (crc place address : UInt32) (frame : Frame) :
    ∃ sum, (⟨register, crc, .start place⟩ : Boundary).hearAll order (frameGroup address frame) =
      (⟨.crc, 0, .start (FrameCursor.after order address)⟩,
        .diagnostic (.write .fdri Frame.wordCount) :: frame.bitEvents place ++
          groupEnd place frame.storedSyndrome frame.syndrome address sum sum) := by
  have hpackets := @packets_frameGroup order register crc place address frame []
  rw [List.append_nil, packets, List.append_nil] at hpackets
  refine ⟨groupSum crc frame.words.toList address, ?_⟩
  rw [← takeAll_packets, hpackets, takeAll_group register crc place address _
    frame.words.length_toList, FrameCursor.dataEvents_words, FrameCursor.observedAfter_words,
    FrameCursor.computedAfter_words, frame.words.length_toList]

end Boundary

/-! ## Calls that write frame data in groups -/

namespace Encoding

/-- Framed calls among which those for frame data come in groups, of frames that pass their
check. -/
inductive Grouped : List Call → Prop where
  | nil : Grouped []
  | call {call : Call} {calls : List Call} (framed : call.IsFramed) (plain : call.isData = false)
      (rest : Grouped calls) : Grouped (call :: calls)
  | group (address : UInt32) {frame : Frame} {calls : List Call}
      (passes : frame.storedSyndrome = frame.syndrome) (rest : Grouped calls) :
      Grouped (frameGroup address frame ++ calls)

namespace Grouped

theorem append {first second : List Call} (hfirst : Grouped first) (hsecond : Grouped second) :
    Grouped (first ++ second) := by
  induction hfirst with
  | nil => exact hsecond
  | call hframed hplain _ ih => exact .call hframed hplain ih
  | group address hpasses _ ih =>
      rw [List.append_assoc]
      exact .group address hpasses ih

theorem of_forall {calls : List Call} (h : ∀ call ∈ calls, call.IsFramed)
    (hplain : ∀ call ∈ calls, call.isData = false) : Grouped calls := by
  induction calls with
  | nil => exact .nil
  | cons call calls ih =>
      obtain ⟨hframed, hrest⟩ := List.forall_mem_cons.1 h
      obtain ⟨hfirst, hlater⟩ := List.forall_mem_cons.1 hplain
      exact .call hframed hfirst (ih hrest hlater)

theorem singleton (address : UInt32) {frame : Frame}
    (hpasses : frame.storedSyndrome = frame.syndrome) : Grouped (frameGroup address frame) := by
  have hgroup := Grouped.group address hpasses .nil
  rwa [List.append_nil] at hgroup

end Grouped

/-- The calls for a frame are groups and what leads to the next row. -/
theorem frame_grouped (order : FrameOrder) (address : UInt32) (contents : Frame) :
    Grouped (frame order address contents) := by
  have hpasses : contents.withSyndrome.1.storedSyndrome = contents.withSyndrome.1.syndrome := by
    rw [Frame.storedSyndrome_withSyndrome, Frame.syndrome_withSyndrome]
  refine (Grouped.singleton address hpasses).append ?_
  split
  · have hempty : Frame.empty.storedSyndrome = Frame.empty.syndrome := by simp
    refine (Grouped.singleton address hempty).append ?_
    cases order.next? address with
    | none => exact .nil
    | some next => exact .of_forall (nextRow_framed next) (nextRow_plain next)
  · exact .nil

/-- After the header, frame data is written in groups. -/
theorem body_grouped (profile : Profile) (memory : FrameMemory) (order : FrameOrder)
    (first : UInt32) : Grouped (body profile memory order first) := by
  have hframes (entries : List (UInt32 × Frame)) :
      Grouped (entries.flatMap fun entry => frame order entry.1 entry.2) := by
    induction entries with
    | nil => exact .nil
    | cons entry entries ih => exact (frame_grouped order entry.1 entry.2).append ih
  have hpreamble := Grouped.of_forall (preamble_framed profile first) (preamble_plain profile first)
  have hepilogue := Grouped.of_forall (epilogue_framed profile) (epilogue_plain profile)
  exact (hpreamble.append (hframes memory.toList)).append hepilogue

/-! ## Frame data among packets -/

/-- An element that is not in the first part of a list is in the rest. -/
theorem exists_append_of_notMem {α : Type} {first second early late : List α} {item : α}
    (h : first ++ second = early ++ item :: late) (hitem : item ∉ first) :
    ∃ later, early = first ++ later ∧ second = later ++ item :: late := by
  rcases List.append_eq_append_iff.1 h with ⟨later, rfl, rfl⟩ | ⟨overlap, rfl, hsecond⟩
  · exact ⟨later, rfl, rfl⟩
  · cases overlap with
    | nil => exact ⟨[], by rw [List.append_nil, List.append_nil], hsecond.symm⟩
    | cons other overlap =>
        obtain ⟨rfl, -⟩ := List.cons.inj hsecond
        exact absurd (List.mem_append_right early List.mem_cons_self) hitem

/-- A framed call writes packets that do nothing and register writes, and frame data only if that is
what it is for. -/
theorem mem_packets_framed {call : Call} (h : call.IsFramed) {crc : UInt32} {packet : Packet}
    (hpacket : packet ∈ call.packets crc) :
    packet = .nop ∨
      ∃ target words, packet = .write target words ∧ (target = .fdri → call.isData = true) := by
  cases call with
  | short opcode target words =>
      exact .inr ⟨target, words, List.mem_singleton.1 hpacket, fun _ => rfl⟩
  | register target value =>
      exact .inr ⟨target, [value], List.mem_singleton.1 hpacket, fun hdata => absurd hdata h.1⟩
  | nop => exact .inl (List.mem_singleton.1 hpacket)
  | nops count => exact .inl (List.eq_of_mem_replicate hpacket)
  | command issued =>
      exact .inr ⟨.cmd, _, List.mem_singleton.1 hpacket,
        fun hdata => absurd hdata (by simp)⟩
  | flush =>
      exact .inr ⟨.crc, _, List.mem_singleton.1 hpacket,
        fun hdata => absurd hdata (by simp)⟩
  | resetCrc => cases hpacket
  | raw | field | word | payload | long => cases h

/-- A packet of frame data is the first of a group. Before it a decoder is at the start of a frame,
and the check sum of the group is the one that a decoder computes. -/
theorem Grouped.split {calls : List Call} (h : Grouped calls) {decodeOrder : FrameOrder}
    {register : Register} {crc place : UInt32} {early late : List Packet} {words : List UInt32}
    (hpackets : (⟨register, crc, .start place⟩ : Boundary).packets decodeOrder calls =
      early ++ .write .fdri words :: late) :
    ∃ (frame : Frame) (address : UInt32) (begun : Register) (before start : UInt32)
      (later : List Packet),
      words = frame.words.toList ∧ frame.storedSyndrome = frame.syndrome ∧
      ((⟨register, crc, .start place⟩ : Boundary).takeAll decodeOrder early).1 =
        ⟨begun, before, .start start⟩ ∧
      .write .fdri words :: late =
        groupPackets words address (groupSum before words address) ++ later := by
  induction h generalizing register crc place early with
  | nil => simp [Boundary.packets] at hpackets
  | @call call calls hframed hplain _ ih =>
      have hfirst : .write .fdri words ∉ call.packets crc := by
        intro hmem
        rcases mem_packets_framed hframed hmem with hnop | ⟨target, others, hwrite, hdata⟩
        · cases hnop
        · cases hwrite
          rw [hplain] at hdata
          exact absurd (hdata rfl) Bool.false_ne_true
      obtain ⟨later, rfl, hlater⟩ := exists_append_of_notMem hpackets hfirst
      have hheard : (⟨register, crc, .start place⟩ : Boundary).takeAll decodeOrder
          (call.packets crc) = _ := Boundary.hear_framed hframed register crc place
      rw [Boundary.hear, hheard] at hlater
      obtain ⟨frame, address, begun, before, start, rest, hwords, hpasses, hstart, hgroup⟩ :=
        ih hlater
      refine ⟨frame, address, begun, before, start, rest, hwords, hpasses, ?_, hgroup⟩
      rw [Boundary.takeAll_append, hheard]
      exact hstart
  | @group address frame calls hpasses _ ih =>
      rw [Boundary.packets_frameGroup] at hpackets
      cases early with
      | nil =>
          obtain ⟨hwords, rfl⟩ := List.cons.inj hpackets
          cases hwords
          exact ⟨frame, address, register, crc, place, _, rfl, hpasses, rfl, rfl⟩
      | cons packet early =>
          obtain ⟨rfl, hothers⟩ := List.cons.inj hpackets
          have hothersFirst : .write .fdri words ∉ [Packet.write .far [address],
              .write .crc [groupSum crc frame.words.toList address]] := by
            simp
          obtain ⟨later, rfl, hlater⟩ := exists_append_of_notMem hothers hothersFirst
          obtain ⟨other, next, begun, before, start, rest, hwords, hagrees, hstart, hgroup⟩ :=
            ih hlater
          refine ⟨other, next, begun, before, start, rest, hwords, hagrees, ?_, hgroup⟩
          have hwhole := @Boundary.takeAll_append decodeOrder ⟨register, crc, .start place⟩
            (groupPackets frame.words.toList address (groupSum crc frame.words.toList address))
            later
          rw [Boundary.takeAll_group _ _ _ _ _ frame.words.length_toList] at hwhole
          exact (congrArg Prod.fst hwhole).trans hstart

end Encoding

end ConfigStream
