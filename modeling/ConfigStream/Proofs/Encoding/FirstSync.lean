import ConfigStream.Proofs.Encoding.Stream

/-!
# The first sync word of a stream

The header strings and the announced length come before the sync word of a header and are free, so
that a sync word may stand in them. `Profile.KeepsSync` says when none does, and then the header is
clear (`headerIsClear_iff_keepsSync`): a decoder begins with the packets if and only if the profile
keeps the sync word first (`ofMemory_firstSync`).
-/

namespace ConfigStream

open Encoding

/-- No sync word stands in the header strings, in the announced length, or across the length of a
string and its text. For the last the length field has to be `AA 99`. -/
structure Profile.KeepsSync (profile : Profile) : Prop where
  declaredLength : profile.declaredLength ≠ syncWord
  texts : ∀ text ∈ profile.texts, ¬ Word.toBytes syncWord <:+: textBytes text
  lengths : ∀ text ∈ profile.texts,
    ¬ (text.utf8ByteSize + 1 = 0xAA99 ∧ [0x55, 0x66] <+: textBytes text)

namespace Encoding

/-- The length and the text of a header string. -/
def lengthAndText (text : String) : List UInt8 :=
  UInt8.ofNat ((text.utf8ByteSize + 1) / 256) :: UInt8.ofNat (text.utf8ByteSize + 1) ::
    textBytes text

theorem toBytes_syncWord : Word.toBytes syncWord = [0xAA, 0x99, 0x55, 0x66] := by decide

/-- No text begins with the byte `99`, which only continues a character. -/
theorem not_prefix_textBytes (text : String) (bytes : List UInt8) :
    ¬ 0x99 :: bytes <+: textBytes text := by
  rintro ⟨rest, hrest⟩
  have hbytes : textBytes text = text.toByteArray.data.toList := rfl
  have hsize : 0 < text.toByteArray.size := by
    rw [← ByteArray.size_data, ← Array.length_toList, ← hbytes, ← hrest]
    exact Nat.zero_lt_succ _
  have hbyte : text.toByteArray[0] = 0x99 := by
    have hhead : text.toByteArray.data[0]? = some 0x99 := by
      rw [← Array.getElem?_toList, ← hbytes, ← hrest]
      rfl
    exact (Array.getElem?_eq_some_iff.1 hhead).2
  have hfirst := text.isValidUTF8.isUTF8FirstByte_getElem_zero hsize
  rw [hbyte] at hfirst
  exact absurd hfirst (by decide)

/-- A sync word stands in a header string if it stands in the text, or if it is the length with the
first two bytes of the text. -/
theorem sync_infix_lengthAndText {text : String} (hfit : text.utf8ByteSize + 1 < Text.limit16) :
    Word.toBytes syncWord <:+: lengthAndText text ↔
      Word.toBytes syncWord <:+: textBytes text ∨
        (text.utf8ByteSize + 1 = 0xAA99 ∧ [0x55, 0x66] <+: textBytes text) := by
  have hlength : UInt8.ofNat ((text.utf8ByteSize + 1) / 256) = 0xAA ∧
      UInt8.ofNat (text.utf8ByteSize + 1) = 0x99 ↔ text.utf8ByteSize + 1 = 0xAA99 := by
    have hlimit : Text.limit16 = 65536 := rfl
    rw [← UInt8.toNat_inj, ← UInt8.toNat_inj, UInt8.toNat_ofNat', UInt8.toNat_ofNat']
    show (text.utf8ByteSize + 1) / 256 % 256 = 170 ∧ (text.utf8ByteSize + 1) % 256 = 153 ↔ _
    omega
  rw [toBytes_syncWord, lengthAndText, List.infix_cons_iff, List.infix_cons_iff,
    List.cons_prefix_cons, List.cons_prefix_cons, List.cons_prefix_cons, ← hlength]
  constructor
  · rintro (⟨hhigh, hlow, htext⟩ | ⟨-, htext⟩ | htext)
    · exact .inr ⟨⟨hhigh.symm, hlow.symm⟩, htext⟩
    · -- The second length byte and the text: a text does not begin in the middle of a character.
      exact absurd htext (not_prefix_textBytes text _)
    · exact .inl htext
  · rintro (htext | ⟨⟨hhigh, hlow⟩, htext⟩)
    · exact .inr (.inr htext)
    · exact .inl ⟨hhigh.symm, hlow.symm, htext⟩

/-- Where a sync word may stand in a header before its end. -/
theorem sync_infix_headerFront (profile : Profile) :
    Word.toBytes syncWord <:+: headerFront profile ↔
      (∃ text ∈ profile.texts, Word.toBytes syncWord <:+: lengthAndText text) ∨
        profile.declaredLength = syncWord := by
  have hword : Word.toBytes syncWord ≠ [] := by decide
  have hlength : Word.toBytes syncWord <:+: Word.toBytes profile.declaredLength ↔
      profile.declaredLength = syncWord := by
    rw [← Word.toBytes_inj, eq_comm]
    exact ⟨fun h => h.eq_of_length rfl, fun h => h ▸ List.infix_refl _⟩
  let padding := List.replicate 63 0xFF ++ busWidthPattern ++ List.replicate 8 0xFF
  have hpadding : ¬ Word.toBytes syncWord <:+: padding := by
    rw [← List.append_nil padding, Word.infix_separators_append_iff hword (by decide),
      List.infix_nil]
    exact hword
  have hsplit : headerFront profile =
      (magic ++ [0x61]) ++ (lengthAndText profile.design ++ 0 ::
        ([0x62] ++ (lengthAndText profile.part ++ 0 ::
          ([0x63] ++ (lengthAndText profile.date ++ 0 ::
            ([0x64] ++ (lengthAndText profile.time ++ 0 ::
              ([0x65] ++ (Word.toBytes profile.declaredLength ++ 0xFF :: padding))))))))) := by
    simp only [headerFront, fieldBytes, lengthAndText, padding, List.append_assoc,
      List.cons_append, List.nil_append]
    rfl
  rw [hsplit]
  repeat rw [Word.infix_separators_append_iff hword (by decide),
    Word.infix_append_cons_iff hword (by decide)]
  simp [hlength, hpadding, Profile.texts, or_assoc]

/-- The header is clear if no sync word stands in it before its end. -/
theorem headerIsClear_iff_headerFront (profile : Profile) :
    HeaderIsClear profile ↔ ¬ Word.toBytes syncWord <:+: headerFront profile := by
  have hlength := length_headerFront profile
  constructor
  · intro h hinside
    obtain ⟨offset, hstands⟩ := Word.exists_standsAt_iff.2 hinside
    have hle := hstands.le
    have hoffset := h offset ((Word.standsAt_append_left (by omega)).2 hstands)
    omega
  · intro h
    rw [headerIsClear_iff]
    intro offset hoffset hstands
    obtain ⟨front, hfront⟩ : ∃ front, headerFront profile = front ++ [0xFF] :=
      ⟨_, (List.append_assoc _ (List.replicate 7 0xFF) [0xFF]).symm⟩
    rw [hfront, List.length_append, List.length_singleton] at hlength
    -- The byte before the sync word of the header ends whatever begins before it.
    rw [Word.standsAt_iff, headerBytes, hfront, List.append_assoc,
      List.drop_append_of_le_length (by omega)] at hstands
    have hinside := Word.prefix_of_prefix_append_cons hstands (by decide)
    rw [hfront] at h
    exact h (hinside.isInfix.trans
      ((List.drop_suffix offset front).isInfix.trans (List.prefix_append front _).isInfix))

/-- The header of a profile whose strings fit is clear if and only if it keeps the sync word
first. -/
theorem headerIsClear_iff_keepsSync {profile : Profile} (hfit : profile.TextsFit) :
    HeaderIsClear profile ↔ profile.KeepsSync := by
  rw [headerIsClear_iff_headerFront, sync_infix_headerFront]
  constructor
  · intro h
    refine ⟨fun hlength => h (.inr hlength), ?_, ?_⟩
    · intro text htext hinside
      exact h (.inl ⟨text, htext, (sync_infix_lengthAndText (hfit text htext)).2 (.inl hinside)⟩)
    · intro text htext hacross
      exact h (.inl ⟨text, htext, (sync_infix_lengthAndText (hfit text htext)).2 (.inr hacross)⟩)
  · rintro hkeeps (⟨text, htext, hinside⟩ | hlength)
    · rcases (sync_infix_lengthAndText (hfit text htext)).1 hinside with hinside | hacross
      · exact hkeeps.texts text htext hinside
      · exact hkeeps.lengths text htext hacross
    · exact hkeeps.declaredLength hlength

end Encoding

variable {profile : Profile} {memory : FrameMemory} {order : FrameOrder} {bitstream : Bitstream}

/-- The sync word of the header stands in a stream, and it is the first there if the header is
clear. -/
theorem encode_standsAt {bytes : List UInt8} (h : encode profile memory order = .ok bytes) :
    Word.StandsAt syncWord bytes (syncOffset profile) ∧
      ((∀ offset < syncOffset profile, ¬ Word.StandsAt syncWord bytes offset) ↔
        HeaderIsClear profile) := by
  obtain ⟨first, rest, -, -, rfl, -⟩ := encode_eq h
  constructor
  · rw [← length_headerFront]
    exact Word.standsAt_append syncWord (headerFront profile) rest
  · rw [headerIsClear_iff]
    -- What begins before the sync word of the header ends in the header.
    have hheader (offset : Nat) (hoffset : offset < syncOffset profile) :
        Word.StandsAt syncWord (headerBytes profile ++ rest) offset ↔
          Word.StandsAt syncWord (headerBytes profile) offset := by
      apply Word.standsAt_append_left
      rw [length_headerBytes]
      omega
    constructor
    · intro hfirst offset hoffset hstands
      exact hfirst offset hoffset ((hheader offset hoffset).2 hstands)
    · intro hclear offset hoffset hstands
      exact hclear offset hoffset ((hheader offset hoffset).1 hstands)

/-- The search finds the first of the sync words that stand in a stream. -/
theorem findSync_of_standsAt {bytes : List UInt8} {offset : Nat}
    (hstands : Word.StandsAt syncWord bytes offset) :
    ∃ first ≤ offset, Word.StandsAt syncWord bytes first ∧
      (∀ earlier < first, ¬ Word.StandsAt syncWord bytes earlier) ∧
      findSync 0 bytes = some (first, bytes.drop (first + 4)) := by
  cases hfound : findSync 0 bytes with
  | none => exact absurd hstands ((findSync_eq_none_iff 0).1 hfound offset)
  | some found =>
      obtain ⟨hfirst, hrest⟩ := @FirstSync.of_findSync bytes found.2 0 found.1 hfound
      refine ⟨found.1, Nat.le_of_not_lt fun hlt => ?_, hfirst.standsAt,
        fun earlier => hfirst.least earlier (Nat.zero_le earlier), ?_⟩
      · exact hfirst.least offset (Nat.zero_le offset) hlt hstands
      · rw [← hrest]

/-- A bitstream of a memory passes its own check: a sync word stands in it, and it goes on after
that. -/
theorem checkSync_ofMemory (h : Bitstream.ofMemory profile memory order = .ok bitstream) :
    bitstream.checkSync = .ok () := by
  obtain ⟨hencode, -, -⟩ := Bitstream.ofMemory_eq_ok h
  have hlength := encode_length hencode
  obtain ⟨offset, hle, -, -, hfound⟩ := findSync_of_standsAt (encode_standsAt hencode).1
  have hrest : bitstream.data.drop (offset + 4) ≠ [] := by
    intro hnone
    have hend := List.drop_eq_nil_iff.1 hnone
    omega
  rw [Bitstream.checkSync, hfound]
  exact if_neg fun hempty => hrest (List.isEmpty_iff.1 hempty)

/-- The sync word that ends the header of a bitstream stands after the header strings. It is the
first in the bitstream, and the one that a decoder begins with, if and only if the profile keeps it
first. A decoder then reads the packets from the first of the preamble on. -/
theorem ofMemory_firstSync (h : Bitstream.ofMemory profile memory order = .ok bitstream) :
    Word.StandsAt syncWord bitstream.data (syncOffset profile) ∧
      ((∀ offset < syncOffset profile, ¬ Word.StandsAt syncWord bitstream.data offset) ↔
        profile.KeepsSync) ∧
      (∀ decodeOrder report, decode decodeOrder bitstream.data = .ok report →
        (report.events.head? = some (.diagnostic (.syncAt (syncOffset profile))) ↔
          profile.KeepsSync)) ∧
      (profile.KeepsSync → ∃ first, memory.first? = some first ∧ ∀ decodeOrder, ∃ later,
        decode decodeOrder bitstream.data =
          .ok ⟨.diagnostic (.syncAt (syncOffset profile)) ::
            ((Boundary.atSync.hearAll decodeOrder (preamble profile first)).2 ++ later)⟩) := by
  obtain ⟨hencode, -, -⟩ := Bitstream.ofMemory_eq_ok h
  obtain ⟨hstands, hfirst⟩ := encode_standsAt hencode
  obtain ⟨-, -, -, hfit, -, -⟩ := encode_eq hencode
  rw [headerIsClear_iff_keepsSync hfit] at hfirst
  refine ⟨hstands, hfirst, ?_, ?_⟩
  · intro decodeOrder report hreport
    obtain ⟨offset, hle, hfound, hleast, hsearch⟩ := findSync_of_standsAt hstands
    rw [Decoder.head?_events_of_findSync hsearch hreport, ← hfirst]
    constructor
    · intro hsame
      obtain rfl : offset = syncOffset profile := by
        injection hsame with hevent
        injection hevent with hdiagnostic
        injection hdiagnostic
      exact hleast
    · intro hkept
      have hge : syncOffset profile ≤ offset := by
        apply Nat.le_of_not_lt
        intro hlt
        exact hkept offset hlt hfound
      rw [Nat.le_antisymm hle hge]
  · intro hkeeps
    obtain ⟨first, hmemory, hdecode⟩ :=
      decode_encode hencode ((headerIsClear_iff_keepsSync hfit).2 hkeeps)
    refine ⟨first, hmemory, fun decodeOrder => ?_⟩
    rw [hdecode decodeOrder, body, List.append_assoc, Boundary.hearAll_append]
    exact ⟨_, rfl⟩

/-- A decoder begins with the sync word of the header of the reference stream. -/
theorem ofMemory_firstSync_reference :
    ∃ bitstream,
      Bitstream.ofMemory {} (FrameMemory.ofAddresses [0]) .empty = .ok bitstream ∧
      ∀ decodeOrder report, decode decodeOrder bitstream.data = .ok report →
        report.events.head? = some (.diagnostic (.syncAt 188)) := by
  have hfirst : (FrameMemory.ofAddresses [0]).first? = some 0 := by decide +kernel
  have hkeeps := (headerIsClear_iff_keepsSync textsFit_default).1 headerIsClear_default
  obtain ⟨bytes, hbytes⟩ := encode_of_fits hfirst textsFit_default
  have hmade := Bitstream.ofMemory_of_encode hbytes
  obtain ⟨-, -, hhead, -⟩ := ofMemory_firstSync hmade
  exact ⟨_, hmade, fun decodeOrder report hreport => (hhead decodeOrder report hreport).2 hkeeps⟩

/-- A header that announces the length `AA995566` has a sync word there, before the one that ends
it. -/
theorem ofMemory_sync_declaredLength :
    ∃ bitstream,
      Bitstream.ofMemory { declaredLength := 0xAA995566 } (FrameMemory.ofAddresses [0]) .empty =
        .ok bitstream ∧
      Word.StandsAt syncWord bitstream.data 104 ∧
      104 < syncOffset { declaredLength := 0xAA995566 } := by
  have hfirst : (FrameMemory.ofAddresses [0]).first? = some 0 := by decide +kernel
  have hfits : ({ declaredLength := 0xAA995566 } : Profile).TextsFit := by decide
  have hstands :
      Word.StandsAt syncWord (headerBytes { declaredLength := 0xAA995566 }) 104 := by
    decide +kernel
  obtain ⟨bytes, hbytes⟩ := encode_of_fits hfirst hfits
  refine ⟨_, Bitstream.ofMemory_of_encode hbytes, ?_, by decide +kernel⟩
  obtain ⟨first, rest, -, -, rfl, -⟩ := encode_eq hbytes
  exact (Word.standsAt_append_left (by decide +kernel)).2 hstands

end ConfigStream
