import ConfigStream.Proofs.Packet.Header
import ConfigStream.Word

/-!
# Packets

A stream after its sync word is a sequence of packets. A `Packet` is a header with the payload that
follows it, and `Packet.bytes` is how it stands in a stream. A header whose fields fit is read back
from its word (`Packet.Fits.header`), so packets that fit are told apart by the bytes of a stream
(`Packet.flatMap_bytes_inj`).
-/

namespace ConfigStream

namespace Word

/-- Words are told apart by their bytes, whatever follows them. -/
theorem toBytes_append_inj {first second : UInt32} {rest other : List UInt8}
    (h : toBytes first ++ rest = toBytes second ++ other) : first = second ∧ rest = other := by
  have hread := first?_toBytes_append first rest
  rw [h, first?_toBytes_append] at hread
  obtain rfl := Option.some.inj hread
  exact ⟨rfl, List.append_cancel_left h⟩

/-- As many words are told apart by their bytes, whatever follows them. -/
theorem flatMap_toBytes_append_inj {words others : List UInt32}
    (hlength : words.length = others.length) {rest other : List UInt8}
    (h : words.flatMap toBytes ++ rest = others.flatMap toBytes ++ other) :
    words = others ∧ rest = other := by
  induction words generalizing others with
  | nil =>
      obtain rfl := List.eq_nil_of_length_eq_zero hlength.symm
      exact ⟨rfl, h⟩
  | cons word words ih =>
      obtain ⟨next, others, rfl⟩ := List.exists_cons_of_length_eq_add_one hlength.symm
      rw [List.flatMap_cons, List.flatMap_cons, List.append_assoc, List.append_assoc] at h
      obtain ⟨rfl, hlater⟩ := toBytes_append_inj h
      obtain ⟨rfl, hrest⟩ := ih (Nat.succ.inj hlength) hlater
      exact ⟨rfl, hrest⟩

end Word

/-- A packet with its payload. What a bare header announces does not follow it. -/
inductive Packet where
  | bare (opcode : Opcode) (register : Register) (announced : Nat)
  | write (register : Register) (words : List UInt32)
  | long (opcode : Opcode) (words : List UInt32)
deriving DecidableEq, Repr

namespace Packet

/-- The header of a packet. -/
def header : Packet → Header
  | .bare opcode register announced => .type1 opcode register announced
  | .write register words => .write register words.length
  | .long opcode words => .type2 opcode words.length

/-- The words after the header. -/
def payload : Packet → List UInt32
  | .bare .. => []
  | .write _ words => words
  | .long _ words => words

/-- The bytes of a packet. -/
def bytes (packet : Packet) : List UInt8 :=
  Word.toBytes packet.header.encode ++ packet.payload.flatMap Word.toBytes

/-- The register and the count fit their fields, and a bare header does not write. -/
def Fits : Packet → Prop
  | .bare opcode register announced =>
      opcode ≠ .write ∧ register.raw.toNat < 2 ^ 14 ∧ announced ≤ Header.type1Limit
  | .write register words => register.raw.toNat < 2 ^ 14 ∧ words.length ≤ Header.type1Limit
  | .long _ words => words.length ≤ Header.type2Limit

/-- A packet that does nothing. -/
def nop : Packet := .bare .nop .crc 0

/-- A word is read as the header of a packet. Bits of the word without a meaning may be set. -/
structure HasHeader (packet : Packet) (raw : UInt32) : Prop where
  ne_dummyWord : raw ≠ dummyWord
  decode_eq : Header.decode raw = packet.header
  ne_bare_write : ∀ register announced, packet ≠ .bare .write register announced

/-- A packet is as long as its words. -/
theorem length_bytes (packet : Packet) : packet.bytes.length = 4 + 4 * packet.payload.length := by
  rw [bytes, List.length_append, Word.length_toBytes, Word.length_flatMap_toBytes]

/-- The header of a packet that fits is read back, and it is not the all-ones word. -/
theorem Fits.header {packet : Packet} (h : packet.Fits) :
    Header.decode packet.header.encode = packet.header ∧ packet.header.encode ≠ dummyWord := by
  cases packet with
  | bare opcode register announced =>
      exact ⟨Header.decode_encode_type1 _ h.2.1 h.2.2, (Header.encode_type1_ne _ _ _).1⟩
  | write register words =>
      exact ⟨Header.decode_encode_type1 _ h.1 h.2, (Header.encode_type1_ne _ _ _).1⟩
  | long opcode words =>
      exact ⟨Header.decode_encode_type2 _ h, (Header.encode_type2_ne _ _).1⟩

/-- A packet that fits has the header that it is written with. -/
theorem Fits.hasHeader {packet : Packet} (h : packet.Fits) :
    packet.HasHeader packet.header.encode where
  ne_dummyWord := h.header.2
  decode_eq := h.header.1
  ne_bare_write := by
    rintro register announced rfl
    exact h.1 rfl

/-! ## Telling packets apart -/

/-- The header of a packet that fits says how long its payload is, and the two make the packet. -/
theorem Fits.of_header_eq {first second : Packet} (hfirst : first.Fits) (hsecond : second.Fits)
    (hheader : first.header = second.header) :
    first.payload.length = second.payload.length ∧
      (first.payload = second.payload → first = second) := by
  cases first with
  | bare opcode register announced =>
      cases second with
      | bare =>
          cases hheader
          exact ⟨rfl, fun _ => rfl⟩
      | write =>
          obtain ⟨rfl, -, -⟩ := Header.type1.inj hheader
          exact absurd rfl hfirst.1
      | long => cases hheader
  | write register words =>
      cases second with
      | bare =>
          obtain ⟨rfl, -, -⟩ := Header.type1.inj hheader
          exact absurd rfl hsecond.1
      | write =>
          obtain ⟨-, rfl, hlength⟩ := Header.type1.inj hheader
          exact ⟨hlength, congrArg (write register)⟩
      | long => cases hheader
  | long opcode words =>
      cases second with
      | bare | write => cases hheader
      | long =>
          obtain ⟨rfl, hlength⟩ := Header.type2.inj hheader
          exact ⟨hlength, congrArg (long opcode)⟩

/-- Packets that fit are told apart by their bytes, whatever follows them. -/
theorem Fits.bytes_append_inj {first second : Packet} (hfirst : first.Fits)
    (hsecond : second.Fits) {rest other : List UInt8}
    (h : first.bytes ++ rest = second.bytes ++ other) : first = second ∧ rest = other := by
  rw [bytes, bytes, List.append_assoc, List.append_assoc] at h
  obtain ⟨hword, hlater⟩ := Word.toBytes_append_inj h
  have hheader : first.header = second.header := by
    rw [← hfirst.header.1, ← hsecond.header.1, hword]
  obtain ⟨hlength, hsame⟩ := hfirst.of_header_eq hsecond hheader
  obtain ⟨hpayload, hrest⟩ := Word.flatMap_toBytes_append_inj hlength hlater
  exact ⟨hsame hpayload, hrest⟩

theorem bytes_ne_nil (packet : Packet) : packet.bytes ≠ [] := by
  intro hnil
  have hlength := packet.length_bytes
  rw [hnil, List.length_nil] at hlength
  omega

/-- The packets of a stream are known from its bytes. -/
theorem flatMap_bytes_inj {packets others : List Packet}
    (hpackets : ∀ packet ∈ packets, packet.Fits) (hothers : ∀ packet ∈ others, packet.Fits)
    (h : packets.flatMap Packet.bytes = others.flatMap Packet.bytes) : packets = others := by
  induction packets generalizing others with
  | nil =>
      cases others with
      | nil => rfl
      | cons other others => exact absurd (List.append_eq_nil_iff.1 h.symm).1 other.bytes_ne_nil
  | cons packet packets ih =>
      obtain ⟨hpacket, hrest⟩ := List.forall_mem_cons.1 hpackets
      cases others with
      | nil => exact absurd (List.append_eq_nil_iff.1 h).1 packet.bytes_ne_nil
      | cons other others =>
          obtain ⟨hother, hlater⟩ := List.forall_mem_cons.1 hothers
          obtain ⟨rfl, hbytes⟩ := hpacket.bytes_append_inj hother h
          rw [ih hrest hlater hbytes]

end Packet

end ConfigStream
