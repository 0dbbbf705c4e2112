import ConfigStream.Encoding
import ConfigStream.Proofs.Stream.Sync
import Mathlib.Algebra.Ring.Nat

/-!
# The header of a stream

`Encoding.headerBytes` are the bytes of a header, up to and with its sync word. A header is written
if its strings fit their length fields (`Encoding.run_header`). The sync word that ends it is the
first in the stream if no other stands in the header (`Encoding.findSync_header`).
-/

namespace ConfigStream

/-- The header strings, in stream order. -/
def Profile.texts (profile : Profile) : List String :=
  [profile.design, profile.part, profile.date, profile.time]

/-- Every header string has a length that fits its length field, the closing zero counted. -/
def Profile.TextsFit (profile : Profile) : Prop :=
  ∀ text ∈ profile.texts, text.utf8ByteSize + 1 < Text.limit16

instance (profile : Profile) : Decidable profile.TextsFit :=
  inferInstanceAs (Decidable (∀ text ∈ profile.texts, text.utf8ByteSize + 1 < Text.limit16))

namespace Encoding

open Writer

/-- The bytes of a string in a stream. -/
def textBytes (text : String) : List UInt8 := text.toUTF8.data.toList

/-- The bytes of a header string: its tag, its length with the closing zero, and its text with the
closing zero. -/
def fieldBytes (tag : UInt8) (text : String) : List UInt8 :=
  tag :: UInt8.ofNat ((text.utf8ByteSize + 1) / 256) :: UInt8.ofNat (text.utf8ByteSize + 1) ::
    (textBytes text ++ [0])

/-- The bytes of a header before its sync word. -/
def headerFront (profile : Profile) : List UInt8 :=
  magic ++ fieldBytes 0x61 profile.design ++ fieldBytes 0x62 profile.part ++
    fieldBytes 0x63 profile.date ++ fieldBytes 0x64 profile.time ++ [0x65] ++
    Word.toBytes profile.declaredLength ++ List.replicate 64 0xFF ++ busWidthPattern ++
    List.replicate 8 0xFF

/-- The bytes of a header. -/
def headerBytes (profile : Profile) : List UInt8 :=
  headerFront profile ++ Word.toBytes syncWord

/-- Where the sync word of a header stands. -/
def syncOffset (profile : Profile) : Nat :=
  114 + (profile.texts.map String.utf8ByteSize).sum

/-- The header has no sync word but the one that ends it. -/
def HeaderIsClear (profile : Profile) : Prop :=
  ∀ offset, Word.StandsAt syncWord (headerBytes profile) offset → offset = syncOffset profile

theorem length_textBytes (text : String) : (textBytes text).length = text.utf8ByteSize := rfl

theorem length_fieldBytes (tag : UInt8) (text : String) :
    (fieldBytes tag text).length = text.utf8ByteSize + 4 := by
  simp [fieldBytes, length_textBytes]

theorem length_headerFront (profile : Profile) :
    (headerFront profile).length = syncOffset profile := by
  simp only [headerFront, syncOffset, Profile.texts, List.length_append, length_fieldBytes,
    List.length_replicate, Word.length_toBytes, List.map_cons, List.map_nil, List.sum_cons,
    List.sum_nil]
  simp only [magic, busWidthPattern, List.length_cons, List.length_nil]
  omega

theorem length_headerBytes (profile : Profile) :
    (headerBytes profile).length = syncOffset profile + 4 := by
  rw [headerBytes, List.length_append, length_headerFront, Word.length_toBytes]

/-- A header is clear if no sync word stands before the one that ends it. -/
theorem headerIsClear_iff (profile : Profile) :
    HeaderIsClear profile ↔
      ∀ offset < syncOffset profile, ¬ Word.StandsAt syncWord (headerBytes profile) offset := by
  constructor
  · intro h offset hoffset hstands
    have hend := h offset hstands
    omega
  · intro h offset hstands
    have hle := hstands.le
    rw [length_headerBytes] at hle
    apply Nat.le_antisymm
    · omega
    · apply Nat.le_of_not_lt
      intro hearlier
      exact h offset hearlier hstands

instance (profile : Profile) : Decidable (HeaderIsClear profile) :=
  decidable_of_iff _ (headerIsClear_iff profile).symm

/-- The header of the reference profile is written. -/
theorem textsFit_default : ({} : Profile).TextsFit := by decide

/-- The header of the reference profile is clear. -/
theorem headerIsClear_default : HeaderIsClear {} := by decide +kernel

/-! ## Writing -/

/-- A header string is written if it fits its length field. -/
theorem field_eq (writer : Writer) (tag : UInt8) (text : String) :
    writer.field tag text =
      if text.utf8ByteSize + 1 < Text.limit16 then .ok (writer.raw (fieldBytes tag text))
      else .error (.fieldTooLong tag text.utf8ByteSize) := rfl

/-- Bytes are appended one after the other. -/
theorem raw_raw (writer : Writer) (first second : List UInt8) :
    (writer.raw first).raw second = writer.raw (first ++ second) := by
  simp only [raw]
  congr 1
  apply Array.ext'
  simp

/-- A header is written if and only if its strings fit. -/
theorem run_header (writer next : Writer) (profile : Profile) :
    writer.run (header profile) = .ok next ↔
      profile.TextsFit ∧ next = writer.raw (headerBytes profile) := by
  simp only [header, run, perform, field_eq, Profile.TextsFit, Profile.texts,
    List.forall_mem_cons, word]
  by_cases hdesign : profile.design.utf8ByteSize + 1 < Text.limit16
  · by_cases hpart : profile.part.utf8ByteSize + 1 < Text.limit16
    · by_cases hdate : profile.date.utf8ByteSize + 1 < Text.limit16
      · by_cases htime : profile.time.utf8ByteSize + 1 < Text.limit16
        · simp only [hdesign, hpart, hdate, htime, if_true, raw_raw]
          show Except.ok (writer.raw (headerBytes profile)) = .ok next ↔ _
          simp [eq_comm]
        · simp [hdesign, hpart, hdate, htime]
      · simp [hdesign, hpart, hdate]
    · simp [hdesign, hpart]
  · simp [hdesign]

/-! ## Searching -/

/-- The search for a sync word in a stream with a clear header ends with the header. -/
theorem findSync_header {profile : Profile} (h : HeaderIsClear profile) (rest : List UInt8) :
    findSync 0 (headerBytes profile ++ rest) = some (syncOffset profile, rest) := by
  have hlength := length_headerBytes profile
  have hstands : Word.StandsAt syncWord (headerBytes profile ++ rest) (syncOffset profile) := by
    rw [← length_headerFront]
    exact Word.standsAt_append syncWord (headerFront profile) rest
  have hfirst : ∀ earlier < syncOffset profile,
      ¬ Word.StandsAt syncWord (headerBytes profile ++ rest) earlier := by
    intro earlier hearlier hstands
    have hinside : earlier + 4 ≤ (headerBytes profile).length := by omega
    have hoffset := h earlier ((Word.standsAt_append_left hinside).1 hstands)
    omega
  have hend : (headerBytes profile ++ rest).drop (syncOffset profile + 4) = rest :=
    List.drop_left' hlength
  rw [findSync_eq hstands hfirst, Nat.zero_add, hend]

end Encoding

end ConfigStream
