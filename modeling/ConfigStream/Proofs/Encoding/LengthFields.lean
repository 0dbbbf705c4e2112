import ConfigStream.Proofs.Encoding.Header
import ConfigStream.Proofs.Stream.Lockstep

/-!
# Length fields

A header string and a packet begin with a length: how many bytes of the string follow, or how many
words of payload. The fields are 16, 11 and 26 bits wide. A header string or a type 1 packet that is
longer than its field can say is refused, and the writer stays as it was. A type 2 packet is never
refused: its count is cut to 26 bits, and the length that it announces is that of its payload if and
only if this is shorter than `2 ^ 26` words (`Writer.keepsLength_long_iff`).
-/

namespace ConfigStream

/-- The words of payload that a header announces. -/
def Header.words? : Header → Option Nat
  | .type1 _ _ words => some words
  | .type2 _ words => some words
  | .unknown .. => none

namespace Writer

open Encoding

/-- Bytes of a call that begin with the length of what follows: for a header string its tag, the
length in 16 bits and as many bytes, the closing zero among them, for a packet a header and as many
words of payload as are read from it. Other calls announce nothing. -/
def Call.Announces : Call → List UInt8 → Prop
  | .field tag value, bytes => ∃ high low,
      bytes = tag :: high :: low :: (textBytes value ++ [0]) ∧
        high.toNat * 256 + low.toNat = (textBytes value ++ [0]).length
  | .short _ _ words, bytes | .long words, bytes => ∃ header,
      bytes = Word.toBytes header ++ words.flatMap Word.toBytes ∧
        (Header.decode header).words? = some words.length
  | _, _ => False

/-- A call is refused and leaves the writer as it was, or it appends bytes that begin with the length
of what follows. -/
def KeepsLength (writer : Writer) (call : Call) : Prop :=
  (∃ fault, writer.perform call = .error fault ∧ writer.after call = writer) ∨
    ∃ next bytes, writer.perform call = .ok next ∧
      next.bytes.toList = writer.bytes.toList ++ bytes ∧ call.Announces bytes

/-- A call that is refused leaves the writer as it was. -/
theorem after_of_error {writer : Writer} {call : Call} {fault : Fault}
    (h : writer.perform call = .error fault) : writer.after call = writer := by
  rw [after, h]

/-! ## Header strings -/

/-- A header string is refused exactly if it is longer than 65534 bytes. -/
theorem perform_field_eq_error {writer : Writer} {tag : UInt8} {value : String} {fault : Fault} :
    writer.perform (.field tag value) = .error fault ↔
      65534 < value.utf8ByteSize ∧ fault = .fieldTooLong tag value.utf8ByteSize := by
  have hlimit : value.utf8ByteSize + 1 < Text.limit16 ↔ ¬ 65534 < value.utf8ByteSize := by
    rw [Text.limit16]
    omega
  rw [perform, field_eq]
  by_cases hlong : 65534 < value.utf8ByteSize
  · rw [if_neg (mt hlimit.1 (not_not_intro hlong)), Except.error.injEq, eq_comm]
    exact (and_iff_right hlong).symm
  · rw [if_pos (hlimit.2 hlong)]
    refine iff_of_false (fun hwritten => ?_) fun h => hlong h.1
    cases hwritten

/-- A length below `2 ^ 16` is kept by its two bytes. -/
theorem toNat_high_low {length : Nat} (h : length < Text.limit16) :
    (UInt8.ofNat (length / 256)).toNat * 256 + (UInt8.ofNat length).toNat = length := by
  rw [UInt8.toNat_ofNat', UInt8.toNat_ofNat']
  rw [Text.limit16] at h
  omega

theorem keepsLength_field (writer : Writer) (tag : UInt8) (value : String) :
    KeepsLength writer (.field tag value) := by
  have hlength : (textBytes value ++ [0]).length = value.utf8ByteSize + 1 := by
    rw [List.length_append, length_textBytes, List.length_singleton]
  by_cases hlong : 65534 < value.utf8ByteSize
  · have hrefused := (@perform_field_eq_error writer tag value _).2 ⟨hlong, rfl⟩
    exact .inl ⟨_, hrefused, after_of_error hrefused⟩
  · have hfits : value.utf8ByteSize + 1 < Text.limit16 := by
      rw [Text.limit16]
      omega
    have hperform : writer.perform (.field tag value) = .ok (writer.raw (fieldBytes tag value)) := by
      rw [perform, field_eq, if_pos hfits]
    refine .inr ⟨_, fieldBytes tag value, hperform, by simp [raw], _, _, rfl, ?_⟩
    rw [hlength, toNat_high_low hfits]

/-! ## Packets -/

/-- The bytes of a packet are its header and its payload. -/
theorem bytes_word_payload (writer : Writer) (header : UInt32) (words : List UInt32) :
    ((writer.word header).payload words).bytes.toList =
      writer.bytes.toList ++ (Word.toBytes header ++ words.flatMap Word.toBytes) := by
  rw [bytes_payload, ← List.append_assoc]
  simp [Writer.word, raw]

/-- A type 1 packet is refused exactly if it has more than 2047 words. -/
theorem perform_short_eq_error {writer : Writer} {opcode : Opcode} {register : Register}
    {words : List UInt32} {fault : Fault} :
    writer.perform (.short opcode register words) = .error fault ↔
      0x7FF < words.length ∧ fault = .payloadTooLong words.length := by
  rw [perform, short]
  by_cases hfits : words.length ≤ Header.type1Limit
  · rw [if_pos hfits]
    refine iff_of_false (fun hwritten => ?_) fun h => Nat.not_lt_of_le hfits h.1
    cases hwritten
  · rw [if_neg hfits, Except.error.injEq, eq_comm]
    exact (and_iff_right (Nat.lt_of_not_le hfits)).symm

theorem keepsLength_short (writer : Writer) (opcode : Opcode) (register : Register)
    (words : List UInt32) : KeepsLength writer (.short opcode register words) := by
  by_cases hfits : words.length ≤ Header.type1Limit
  · refine .inr ⟨_, _, if_pos hfits, bytes_word_payload _ _ words, _, rfl, ?_⟩
    have hcount : words.length < 2 ^ 11 := Nat.lt_succ_of_le hfits
    rw [Header.decode_encode_type1_cut, Header.words?, Nat.mod_eq_of_lt hcount]
  · have hrefused := (@perform_short_eq_error writer opcode register words _).2
      ⟨Nat.lt_of_not_le hfits, rfl⟩
    exact .inl ⟨_, hrefused, after_of_error hrefused⟩

/-- A type 2 packet announces its length if and only if its count fits. -/
theorem keepsLength_long_iff (writer : Writer) (words : List UInt32) :
    KeepsLength writer (.long words) ↔ words.length < 2 ^ 26 := by
  have hbytes := bytes_word_payload writer (Header.long words.length).encode words
  have hcount : (Header.decode (Header.long words.length).encode).words? =
      some (words.length % 2 ^ 26) := by
    rw [Header.long, Header.decode_encode_type2_cut, Header.words?]
  constructor
  · rintro (⟨fault, hrefused, -⟩ | ⟨next, bytes, hperform, hnext, header, rfl, hannounced⟩)
    · cases hrefused
    · obtain rfl := Except.ok.inj hperform
      obtain ⟨rfl, -⟩ := Word.toBytes_append_inj (List.append_cancel_left (hbytes.symm.trans hnext))
      rw [hcount, Option.some.injEq] at hannounced
      rw [← hannounced]
      exact Nat.mod_lt _ (Nat.two_pow_pos 26)
  · intro hfits
    rw [Nat.mod_eq_of_lt hfits] at hcount
    exact .inr ⟨_, _, rfl, hbytes, _, rfl, hcount⟩

/-- Which length fields can be relied on. A header string and a type 1 packet are refused if they
are too long for theirs, with the writer as it was, and otherwise begin with the length of what
follows. A type 2 packet is always written, and it begins with the length of what follows if and only
if that is less than `2 ^ 26` words. -/
theorem keepsLength_or_long (writer : Writer) (tag : UInt8) (value : String) (opcode : Opcode)
    (register : Register) (words : List UInt32) (fault : Fault) :
    KeepsLength writer (.field tag value) ∧ KeepsLength writer (.short opcode register words) ∧
      (writer.perform (.field tag value) = .error fault ↔
        65534 < value.utf8ByteSize ∧ fault = .fieldTooLong tag value.utf8ByteSize) ∧
      (writer.perform (.short opcode register words) = .error fault ↔
        0x7FF < words.length ∧ fault = .payloadTooLong words.length) ∧
      writer.perform (.long words) ≠ .error fault ∧
      (KeepsLength writer (.long words) ↔ words.length < 2 ^ 26) :=
  ⟨keepsLength_field writer tag value, keepsLength_short writer opcode register words,
    perform_field_eq_error, perform_short_eq_error, nofun,
    keepsLength_long_iff writer words⟩

/-- A type 2 packet of `2 ^ 26` words is written with a header that announces none. -/
theorem not_keepsLength_long :
    let words := List.replicate 0x4000000 (0 : UInt32)
    ¬ KeepsLength {} (.long words) ∧
      Header.decode (Header.long words.length).encode = .type2 .read 0 := by
  intro words
  have hlength : words.length = 2 ^ 26 := List.length_replicate
  constructor
  · rw [keepsLength_long_iff, hlength]
    exact Nat.lt_irrefl _
  · rw [hlength, Header.long, Header.decode_encode_type2_cut, Nat.mod_self]

end Writer

end ConfigStream
