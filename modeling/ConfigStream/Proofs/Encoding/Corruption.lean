import ConfigStream.Proofs.Decoder.DataWord
import ConfigStream.Proofs.Decoder.FrameWalk
import ConfigStream.Proofs.Encoding.Groups
import ConfigStream.Proofs.Encoding.RoundTrip
import ConfigStream.Proofs.Frame.Residue

/-!
# A corrupted word of frame data

One word of frame data in an encoded stream is replaced by another. A decoder then reports the same
events but for the data bits of that word and the two checks at the end of its group: the check of
the check sum fails, and so does the check of the frame if an odd number of bits or two bits were
changed (`decode_corrupted`).
-/

namespace ConfigStream

open Encoding

/-- A decoder that is about to take a word as frame data. -/
structure Decoder.AwaitsFrameData (decoder : Decoder) : Prop where
  pending : decoder.pending = []
  register : decoder.register = .fdri
  phase : ∃ long further last, decoder.phase = .payload long further last

/-- What a word tells of its data bits at a place of a frame. -/
def FrameCursor.bitsOf (cursor : FrameCursor) (word : UInt32) : List Event :=
  (Frame.dataBitsOf cursor.word word).map fun bit => .bit ⟨cursor.frame, cursor.word, bit⟩

variable {profile : Profile} {memory : FrameMemory} {order : FrameOrder} {bytes : List UInt8}

/-- A decoder that has found a sync word has read the header. -/
theorem Encoding.exists_append_of_synced (hclear : HeaderIsClear profile)
    {decodeOrder : FrameOrder} {front back rest : List UInt8}
    (hbytes : headerBytes profile ++ rest = front ++ back)
    (hsynced : (Decoder.after decodeOrder front).1.phase ≠ .unsynced) :
    ∃ part, front = headerBytes profile ++ part ∧ rest = part ++ back := by
  rcases List.append_eq_append_iff.1 hbytes with hpart | ⟨missing, hheader, hback⟩
  · exact hpart
  · cases missing with
    | nil =>
        rw [List.append_nil] at hheader
        exact ⟨[], by rw [hheader, List.append_nil], hback.symm⟩
    | cons byte missing =>
        -- No sync word stands in a part of the header.
        have hnone : findSync Decoder.start.position (Decoder.start.pending ++ front) = none := by
          refine (findSync_eq_none_iff _).2 fun offset hstands => ?_
          have hinside : Word.StandsAt syncWord front offset := hstands
          have hle := hinside.le
          rw [← Word.standsAt_append_left hle, ← hheader] at hinside
          have hlength := congrArg List.length hheader
          rw [length_headerBytes, List.length_append, List.length_cons] at hlength
          have hoffset := hclear offset hinside
          omega
        obtain ⟨last, hreads, hlast⟩ :=
          @Decoder.Reads.noSync decodeOrder .start front rfl (Nat.zero_le 3) hnone
        rw [hreads.after_eq] at hsynced
        exact absurd hlast hsynced

/-! ## The group of a word -/

namespace Encoding

/-- A group among the packets of a stream: the packets before and after it, its frame and address,
and what a decoder remembers when the group begins at the start of a frame. -/
structure DataGroup where
  early : List Packet
  register : Register
  crc : UInt32
  start : UInt32
  frame : Frame
  address : UInt32
  later : List Packet

namespace DataGroup

/-- The check sum that is written at the end of the group. -/
def written (group : DataGroup) : UInt32 :=
  groupSum group.crc group.frame.words.toList group.address

/-- The packets of the stream with the given data for the frame of the group. -/
def packets (group : DataGroup) (words : List UInt32) : List Packet :=
  group.early ++ (groupPackets words group.address group.written ++ group.later)

/-- The bytes of the stream up to a word of the group's data. -/
def front (profile : Profile) (group : DataGroup) (before : List UInt32) : List UInt8 :=
  headerBytes profile ++ (group.early.flatMap Packet.bytes ++
    (Word.toBytes (Header.write .fdri Frame.wordCount).encode ++ before.flatMap Word.toBytes))

/-- The bytes of the stream after a word of the group's data. -/
def back (group : DataGroup) (after : List UInt32) : List UInt8 :=
  after.flatMap Word.toBytes ++ ((Packet.write .far [group.address]).bytes ++
    ((Packet.write .crc [group.written]).bytes ++ group.later.flatMap Packet.bytes))

/-- The packets fit, the frame passes its check, and the group begins where it says. -/
structure IsSound (group : DataGroup) (decodeOrder : FrameOrder) : Prop where
  fits : ∀ packet ∈ group.packets group.frame.words.toList, packet.Fits
  passes : group.frame.storedSyndrome = group.frame.syndrome
  begins : (Boundary.atSync.takeAll decodeOrder group.early).1 =
    ⟨group.register, group.crc, .start group.start⟩

/-- The bytes of the stream around a word of the group's data. -/
theorem bytes_packets (profile : Profile) (group : DataGroup) {before after : List UInt32}
    {word : UInt32} (h : (before ++ word :: after).length = Frame.wordCount) :
    headerBytes profile ++ (group.packets (before ++ word :: after)).flatMap Packet.bytes =
      group.front profile before ++ Word.toBytes word ++ group.back after := by
  simp [packets, front, back, groupPackets, Packet.bytes, Packet.header, Packet.payload, ← h,
    Header.write]

end DataGroup

variable {decodeOrder : FrameOrder} {front back : List UInt8} {word : UInt32}

/-- After the header every packet does nothing or writes a register; none is of type 2. -/
theorem write_of_mem_bodyPackets {first : UInt32} {packet : Packet}
    (h : packet ∈ bodyPackets profile memory order decodeOrder first) :
    packet = .nop ∨ ∃ target words, packet = .write target words := by
  obtain ⟨call, hcall, crc, hpacket⟩ := Boundary.mem_packets h
  exact (mem_packets_framed (body_framed profile memory order first call hcall) hpacket).imp_right
    fun ⟨target, words, hwrite, _⟩ => ⟨target, words, hwrite⟩

/-- Where a decoder takes a word as frame data, the word is one of the frame of a group. -/
theorem exists_group (h : encode profile memory order = .ok bytes)
    (hclear : HeaderIsClear profile) (hbytes : bytes = front ++ Word.toBytes word ++ back)
    (hdata : (Decoder.after decodeOrder front).1.AwaitsFrameData) :
    ∃ (group : DataGroup) (before after : List UInt32), group.IsSound decodeOrder ∧
      group.frame.words.toList = before ++ word :: after ∧
      front = group.front profile before ∧ back = group.back after := by
  obtain ⟨first, -, -, hpackets⟩ := encode_packets h
  obtain ⟨hwhole, hfits⟩ := hpackets decodeOrder
  obtain ⟨long, further, previous, hphase⟩ := hdata.phase
  rw [hbytes, List.append_assoc] at hwhole
  obtain ⟨part, rfl, hpart⟩ := exists_append_of_synced hclear hwhole.symm (by rw [hphase]; simp)
  obtain ⟨events, -, hreads⟩ := (Decoder.Reads.after decodeOrder _).rest
    (Decoder.Reads.headerBytes hclear decodeOrder)
  obtain ⟨early, packet, late, before, after, hsplit, hpayload, rfl, rfl⟩ :=
    hreads.inPacket hfits hpart hdata.pending (by rw [hphase]; simp)
  have hmem : packet ∈ bodyPackets profile memory order decodeOrder first :=
    hsplit ▸ List.mem_append_right early List.mem_cons_self
  have hearly := fun other hother =>
    hfits other (hsplit ▸ List.mem_append_left (packet :: late) hother)
  obtain ⟨longer, last, hstate⟩ := Decoder.Reads.packetPart (hfits packet hmem) hpayload
    (Boundary.atSync.takeAll decodeOrder early).1
    (syncOffset profile + 4 + (early.flatMap Packet.bytes).length)
  -- The register of the decoder is that of the packet, which thus writes frame data.
  have hregister := hdata.register
  rw [(hreads.unique (.trans (.packets hearly Boundary.atSync _) hstate)).2] at hregister
  obtain ⟨words, rfl⟩ : ∃ words, packet = .write .fdri words := by
    rcases write_of_mem_bodyPackets hmem with rfl | ⟨target, words, rfl⟩
    · simp [Packet.nop, Packet.payload] at hpayload
    · obtain rfl : target = .fdri := hregister
      exact ⟨words, rfl⟩
  obtain rfl : words = before ++ word :: after := hpayload
  obtain ⟨frame, address, register, crc, start, later, hwords, hpasses, hbegins, hgroup⟩ :=
    (body_grouped profile memory order first).split hsplit
  have hlength := Frame.length_replace hwords.symm word
  rw [hgroup] at hsplit
  obtain rfl := (List.cons.inj hgroup).2
  refine ⟨⟨early, register, crc, start, frame, address, later⟩, before, after,
    ⟨?_, hpasses, hbegins⟩, hwords.symm, ?_, ?_⟩
  · rw [DataGroup.packets, DataGroup.written, ← hwords, ← hsplit]
    exact hfits
  · rw [DataGroup.front, ← hlength]
    rfl
  · rw [DataGroup.back, DataGroup.written, ← hwords]
    simp [List.flatMap_cons]

/-- The words of the first frame of a stream come after the preamble. -/
theorem exists_firstWords (h : encode profile memory order = .ok bytes)
    {first : UInt32} {contents : Frame} {entries : List (UInt32 × Frame)}
    (hentries : memory.toList = (first, contents) :: entries) {before after : List UInt32}
    {word : UInt32} (hwords : contents.withSyndrome.1.words.toList = before ++ word :: after)
    (decodeOrder : FrameOrder) :
    ∃ back, bytes = headerBytes profile ++
      ((Boundary.atSync.packets decodeOrder (preamble profile first)).flatMap Packet.bytes ++
        (Word.toBytes (Header.write .fdri Frame.wordCount).encode ++
          before.flatMap Word.toBytes)) ++ Word.toBytes word ++ back := by
  obtain ⟨least, hleast, -, hpackets⟩ := encode_packets h
  obtain rfl : first = least := by
    rw [FrameMemory.first?, ← memory.map_fst_toList, hentries] at hleast
    exact Option.some.inj hleast
  obtain ⟨register, crc, hfirst⟩ := hearAll_preamble profile first decodeOrder
  have hlength := Frame.length_replace hwords word
  rw [(hpackets decodeOrder).1, bodyPackets, body, List.append_assoc, Boundary.packets_append,
    hfirst, frames, hentries, List.flatMap_cons, frame, List.append_assoc, List.append_assoc,
    Boundary.packets_frameGroup, hwords]
  have hgroup (later : List Packet) := DataGroup.bytes_packets profile
    ⟨Boundary.atSync.packets decodeOrder (preamble profile first), register, crc, first,
      contents.withSyndrome.1, first, later⟩ hlength
  simp only [DataGroup.packets, DataGroup.written, hwords] at hgroup
  exact ⟨_, hgroup _⟩

/-! ## What is told -/

namespace DataGroup

variable {group : DataGroup} {before after : List UInt32}

/-- A word of the group's data is taken as frame data: what has been told before it, and its
place. -/
theorem IsSound.after_front (h : group.IsSound decodeOrder) (hclear : HeaderIsClear profile)
    (hwords : group.frame.words.toList = before ++ word :: after) :
    (Decoder.after decodeOrder (group.front profile before)).1.AwaitsFrameData ∧
      (Decoder.after decodeOrder (group.front profile before)).2 =
        .diagnostic (.syncAt (syncOffset profile)) ::
          (Boundary.atSync.takeAll decodeOrder group.early).2 ++
          .diagnostic (.write .fdri Frame.wordCount) ::
            FrameCursor.dataEvents group.start 0 before ∧
      (Decoder.after decodeOrder (group.front profile before)).1.cursor.frame = group.start ∧
      (Decoder.after decodeOrder (group.front profile before)).1.cursor.word.val =
        before.length := by
  have hlength := Frame.length_replace hwords word
  have hfits := h.fits
  rw [packets, hwords] at hfits
  obtain ⟨hearly, hrest⟩ := List.forall_mem_append.1 hfits
  have hpacket := hrest _ List.mem_cons_self
  have hwithin : (FrameCursor.start group.start).word + before.length < Frame.wordCount := by
    rw [List.length_append, List.length_cons] at hlength
    show 0 + before.length < Frame.wordCount
    omega
  obtain ⟨hevents, hframe, hword⟩ :=
    @FrameCursor.takeAll_within decodeOrder (.start group.start) before hwithin
  obtain ⟨long, last, hpart⟩ := @Decoder.Reads.packetPart decodeOrder _ hpacket before after word
    rfl ⟨group.register, group.crc, .start group.start⟩
    (syncOffset profile + 4 + (group.early.flatMap Packet.bytes).length)
  have hreads := (Decoder.Reads.headerBytes hclear decodeOrder).trans
    ((h.begins ▸ Decoder.Reads.packets hearly Boundary.atSync _).trans hpart)
  have hfront : group.front profile before = headerBytes profile ++
      (group.early.flatMap Packet.bytes ++
        (Word.toBytes (Packet.write .fdri (before ++ word :: after)).header.encode ++
          before.flatMap Word.toBytes)) := by
    rw [front, ← hlength]
    rfl
  rw [hfront, hreads.after_eq]
  refine ⟨⟨rfl, rfl, long, after.length, last, rfl⟩, ?_, hframe, ?_⟩
  · simp [Boundary.opening, Boundary.begun, Decoder.payloadEvents, hevents, ← hlength]
    rfl
  · exact hword.trans (Nat.zero_add _)

/-- What a decoder tells of the stream with the given data for the frame of the group. -/
theorem IsSound.decode_packets (h : group.IsSound decodeOrder) (hclear : HeaderIsClear profile)
    {words : List UInt32} (hlength : words.length = Frame.wordCount) :
    decode decodeOrder (headerBytes profile ++ (group.packets words).flatMap Packet.bytes) =
      .ok ⟨.diagnostic (.syncAt (syncOffset profile)) ::
        (Boundary.atSync.takeAll decodeOrder group.early).2 ++
        (.diagnostic (.write .fdri Frame.wordCount) ::
          FrameCursor.dataEvents group.start 0 words ++
          groupEnd group.start (FrameCursor.observedAfter 0 0 words)
            (FrameCursor.computedAfter 0 0 words) group.address group.written
            (groupSum group.crc words group.address)) ++
        ((⟨.crc, 0, .start (FrameCursor.after decodeOrder group.address)⟩ : Boundary).takeAll
          decodeOrder group.later).2⟩ := by
  have hfits : ∀ packet ∈ group.packets words, packet.Fits := by
    obtain ⟨hearly, hrest⟩ := List.forall_mem_append.1 h.fits
    obtain ⟨hdata, hlater⟩ := List.forall_mem_cons.1 hrest
    -- A packet of other words fits if they are as many.
    have hwords : (Packet.write .fdri words).Fits := ⟨hdata.1, by rw [hlength]; decide⟩
    exact List.forall_mem_append.2 ⟨hearly, List.forall_mem_cons.2 ⟨hwords, hlater⟩⟩
  rw [ConfigStream.decode_packets hclear decodeOrder hfits, packets, Boundary.takeAll_append,
    h.begins, Boundary.takeAll_append, Boundary.takeAll_group _ _ _ _ _ hlength, hlength]
  simp

/-- What a decoder tells of the stream with another word in a place of the group's data: what it
told before, the data bits of the word and of the words after it, the checks, and what follows the
group. -/
theorem IsSound.decode_replaced (h : group.IsSound decodeOrder) (hclear : HeaderIsClear profile)
    (hwords : group.frame.words.toList = before ++ word :: after) (other : UInt32) :
    decode decodeOrder (group.front profile before ++ Word.toBytes other ++ group.back after) =
      .ok ⟨(Decoder.after decodeOrder (group.front profile before)).2 ++
        (Decoder.after decodeOrder (group.front profile before)).1.cursor.bitsOf other ++
        FrameCursor.dataEvents group.start (before.length + 1) after ++
        groupEnd group.start (FrameCursor.observedAfter 0 0 (before ++ other :: after))
          (FrameCursor.computedAfter 0 0 (before ++ other :: after)) group.address group.written
          (groupSum group.crc (before ++ other :: after) group.address) ++
        ((⟨.crc, 0, .start (FrameCursor.after decodeOrder group.address)⟩ : Boundary).takeAll
          decodeOrder group.later).2⟩ := by
  have hlength := Frame.length_replace hwords other
  obtain ⟨-, hevents, hframe, hplace⟩ := h.after_front hclear hwords
  have hdata : FrameCursor.dataEvents group.start 0 (before ++ other :: after) =
      FrameCursor.dataEvents group.start 0 before ++
        ((Decoder.after decodeOrder (group.front profile before)).1.cursor.bitsOf other ++
          FrameCursor.dataEvents group.start (before.length + 1) after) := by
    rw [FrameCursor.dataEvents_append, Nat.zero_add, FrameCursor.bitsOf, hframe, hplace]
    rfl
  rw [← bytes_packets profile group hlength, h.decode_packets hclear hlength, hevents, hdata]
  simp

end DataGroup

/-- A decoder takes a word of an encoded stream as frame data if and only if the word is one of the
frame of a group. -/
theorem awaitsFrameData_iff (h : encode profile memory order = .ok bytes)
    (hclear : HeaderIsClear profile) (decodeOrder : FrameOrder)
    (hbytes : bytes = front ++ Word.toBytes word ++ back) :
    (Decoder.after decodeOrder front).1.AwaitsFrameData ↔
      ∃ (group : DataGroup) (before after : List UInt32), group.IsSound decodeOrder ∧
        group.frame.words.toList = before ++ word :: after ∧
        front = group.front profile before ∧ back = group.back after := by
  constructor
  · exact exists_group h hclear hbytes
  · rintro ⟨group, before, after, hsound, hwords, rfl, -⟩
    exact (hsound.after_front hclear hwords).1

end Encoding

/-! ## Corruption -/

/-- Data bits are no checks. -/
theorem FrameCursor.failedChecks_bitsOf (cursor : FrameCursor) (word : UInt32) :
    (⟨cursor.bitsOf word⟩ : Report).failedChecks = [] := by
  simp [Report.failedChecks, Report.diagnostics, bitsOf, List.filterMap_map, Function.comp_def,
    Event.diagnostic?]

/-- The end of a group has failed checks where the two sides differ. -/
theorem Encoding.failedChecks_groupEnd (frame : UInt32) (observed computed : UInt64)
    (address : UInt32) {written found : UInt32} (h : written ≠ found) :
    (⟨groupEnd frame observed computed address written found⟩ : Report).failedChecks =
      (if observed = computed then [] else [.eccCheck frame observed computed]) ++
        [.crcCheck written found] := by
  by_cases hsame : observed = computed <;>
    simp [Report.failedChecks, Report.diagnostics, groupEnd, Event.diagnostic?,
      Diagnostic.isFailedCheck, h, hsame]

/-- A word of frame data of an encoded stream is replaced by another, at any place of any group.
Both streams are decoded, whatever order the decoder follows, and the reports differ in three
places: the data bits of the word, the check of its frame and the check of the check sum at the end
of its group. The check of the check sum fails; the check of the frame fails if the words differ in
an odd number of bits or in two bits; and every other check passes. -/
theorem decode_corrupted (h : encode profile memory order = .ok bytes)
    (hclear : HeaderIsClear profile) (decodeOrder : FrameOrder) {front back : List UInt8}
    {word other : UInt32} (hbytes : bytes = front ++ Word.toBytes word ++ back)
    (hdata : (Decoder.after decodeOrder front).1.AwaitsFrameData) (hother : word ≠ other) :
    let cursor := (Decoder.after decodeOrder front).1.cursor
    let early := (Decoder.after decodeOrder front).2
    ∃ (middle late : List Event) (address written found : UInt32)
      (syndrome observed computed : UInt64) (plain corrupted : Report),
      decode decodeOrder bytes = .ok plain ∧
      decode decodeOrder (front ++ Word.toBytes other ++ back) = .ok corrupted ∧
      plain.events = early ++ cursor.bitsOf word ++ middle ++
        groupEnd cursor.frame syndrome syndrome address written written ++ late ∧
      corrupted.events = early ++ cursor.bitsOf other ++ middle ++
        groupEnd cursor.frame observed computed address written found ++ late ∧
      (∀ event ∈ middle, ∃ place bit : Nat, cursor.word < place ∧
        event = .bit ⟨cursor.frame, place, bit⟩) ∧
      plain.isClean = true ∧
      corrupted.failedChecks =
        (if observed = computed then [] else [.eccCheck cursor.frame observed computed]) ++
          [.crcCheck written found] ∧
      written ≠ found ∧
      ((Word.setBits (word ^^^ other)).length % 2 = 1 ∨
        (Word.setBits (word ^^^ other)).length = 2 → observed ≠ computed) := by
  intro cursor early
  obtain ⟨group, before, after, hsound, hwords, rfl, rfl⟩ :=
    (awaitsFrameData_iff h hclear decodeOrder hbytes).1 hdata
  obtain ⟨-, -, hframe, hplace⟩ := hsound.after_front hclear hwords
  have hplain := hsound.decode_replaced hclear hwords word
  have hcorrupted := hsound.decode_replaced hclear hwords other
  obtain ⟨changed, hchanged⟩ : ∃ changed : Frame, changed.words.toList = before ++ other :: after :=
    ⟨_, Frame.toList_ofWords_zero (Frame.length_replace hwords other) []⟩
  rw [← hwords, FrameCursor.observedAfter_words, FrameCursor.computedAfter_words,
    hsound.passes, ← hbytes] at hplain
  rw [← hchanged, FrameCursor.observedAfter_words, FrameCursor.computedAfter_words, hchanged]
    at hcorrupted
  have hsum : group.written ≠ groupSum group.crc (before ++ other :: after) group.address := by
    rw [DataGroup.written, hwords]
    exact groupSum_replace_ne hother group.crc group.address before after
  obtain ⟨first, -, hclean⟩ := decode_encode_placed h hclear
  obtain ⟨report, hreport, -, -, hpasses⟩ := hclean decodeOrder
  obtain rfl := Except.ok.inj (hplain.symm.trans hreport)
  rw [← hframe] at hplain hcorrupted hpasses
  have hnone := List.isEmpty_iff.1 hpasses
  simp only [Report.failedChecks_append, List.append_eq_nil_iff] at hnone
  obtain ⟨⟨⟨⟨hearly, -⟩, hmiddle⟩, -⟩, hlate⟩ := hnone
  refine ⟨_, _, _, _, _, _, _, _, _, _, hplain, hcorrupted, rfl, rfl, ?_, hpasses, ?_, hsum,
    Frame.check_replace_ne hwords hchanged hsound.passes⟩
  · intro event hevent
    obtain ⟨place, bit, hlater, rfl⟩ := FrameCursor.mem_dataEvents hevent
    exact ⟨place, bit, by rw [hplace]; omega, rfl⟩
  · simp only [Report.failedChecks_append, hearly, hmiddle, hlate,
      FrameCursor.failedChecks_bitsOf, failedChecks_groupEnd _ _ _ _ hsum, List.nil_append,
      List.append_nil]
    rfl

/-- In the stream of a single frame, two bits of a word that was zero are set. -/
theorem decode_corrupted_twoBits :
    let memory := FrameMemory.ofBits [⟨0, 3, 9⟩]
    let order := FrameOrder.empty
    let front := headerBytes {} ++
      ((Boundary.atSync.packets order (preamble {} 0)).flatMap Packet.bytes ++
        (Word.toBytes (Header.write .fdri Frame.wordCount).encode ++
          [0, 0].flatMap Word.toBytes))
    ∃ bytes back plain corrupted,
      encode {} memory order = .ok bytes ∧ HeaderIsClear {} ∧
      bytes = front ++ Word.toBytes 0 ++ back ∧
      (Decoder.after order front).1.AwaitsFrameData ∧
      decode order bytes = .ok plain ∧ plain.bits = [⟨0, 3, 9⟩] ∧ plain.isClean = true ∧
      decode order (front ++ Word.toBytes 3 ++ back) = .ok corrupted ∧
      corrupted.bits = [⟨0, 2, 0⟩, ⟨0, 2, 1⟩, ⟨0, 3, 9⟩] ∧
      corrupted.failedChecks.length = 2 := by
  intro memory order front
  have hfirst : memory.first? = some 0 := by decide +kernel
  have hwords : memory.toList.map (fun entry => entry.2.withSyndrome.1.words.toList.take 3) =
      [[0, 0, 0]] := by decide +kernel
  have hplaced : placedBits order order 0 memory.toList = [⟨0, 3, 9⟩] := by decide +kernel
  have hdata : (Decoder.after order front).1.AwaitsFrameData :=
    ⟨by decide +kernel, by decide +kernel, false, 90, some 0, by decide +kernel⟩
  have hearly : (Decoder.after order front).2.filterMap Event.bit? = [] := by decide +kernel
  have hzero : (Decoder.after order front).1.cursor.bitsOf 0 = [] := by decide +kernel
  have hthree : (Decoder.after order front).1.cursor.bitsOf 3 =
      [.bit ⟨0, 2, 0⟩, .bit ⟨0, 2, 1⟩] := by decide +kernel
  obtain ⟨bytes, hencode⟩ : ∃ bytes, encode {} memory order = .ok bytes :=
    encode_of_fits hfirst textsFit_default
  obtain ⟨contents, entries, hentries⟩ := FrameMemory.toList_of_first? hfirst
  obtain ⟨back, hbytes⟩ : ∃ back, bytes = front ++ Word.toBytes 0 ++ back := by
    rw [hentries] at hwords
    have hzeros : contents.withSyndrome.1.words.toList.take 3 = [0, 0, 0] :=
      (List.cons.inj hwords).1
    have hwhole := (List.take_append_drop 3 contents.withSyndrome.1.words.toList).symm
    rw [hzeros] at hwhole
    exact exists_firstWords hencode hentries hwhole order
  obtain ⟨middle, late, address, written, found, syndrome, observed, computed, plain, corrupted,
    hplain, hcorrupted, hevents, hchanged, -, hclean, hfailed, -, hnoticed⟩ :=
    decode_corrupted hencode headerIsClear_default order hbytes hdata
      (show (0 : UInt32) ≠ 3 by decide)
  have hdiffer : observed ≠ computed := hnoticed (.inr (by decide))
  obtain ⟨first, hsame, hreports⟩ := decode_encode_placed hencode headerIsClear_default
  obtain rfl : 0 = first := Option.some.inj (hfirst.symm.trans hsame)
  obtain ⟨report, hreport, hbits, -⟩ := hreports order
  obtain rfl : plain = report := Except.ok.inj (hplain.symm.trans hreport)
  rw [hplaced] at hbits
  refine ⟨bytes, back, plain, corrupted, hencode, headerIsClear_default, hbytes, hdata, hplain,
    hbits, hclean, hcorrupted, ?_, ?_⟩
  · have hend (observed computed : UInt64) (found : UInt32) :
        (groupEnd (Decoder.after order front).1.cursor.frame observed computed address written
          found).filterMap Event.bit? = [] := rfl
    rw [Report.bits, hevents, hzero] at hbits
    rw [Report.bits, hchanged, hthree]
    simp only [List.filterMap_append, hearly, hend, List.nil_append,
      List.append_nil] at hbits ⊢
    rw [List.append_assoc, hbits]
    rfl
  · rw [hfailed, if_neg hdiffer]
    rfl

end ConfigStream
