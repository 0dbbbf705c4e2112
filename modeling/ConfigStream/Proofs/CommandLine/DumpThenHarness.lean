import ConfigStream.CommandLine.Run
import ConfigStream.Proofs.CommandLine.AssembleThenDump
import ConfigStream.Proofs.Database.Harness
import ConfigStream.Proofs.Decoder.ReportedBits
import ConfigStream.Proofs.Listing

/-!
# A dump as a harness

What a dump prints can be read back as a harness, with and without the diagnostics as comments: into
empty frames that include those of the report it brings the bits of the report and nothing else
(`CommandLine.Dump.listing_as_harness`).
-/

namespace ConfigStream

open Harness

variable {order : FrameOrder} {bytes : List UInt8} {report : Report} {memory : FrameMemory}

/-- The lines of a listing that say something are the addresses of its bits. -/
theorem Harness.reads_listing (h : ∀ address ∈ report.bits, address.InFrame) (comments : Bool) :
    Reads (Text.entries (report.listing comments)) report.bits := by
  have hlines := congrArg (List.map BitAddress.parse) (report.map_text_entries_listing comments)
  simp only [List.map_map, Function.comp_def] at hlines
  rw [Reads, hlines]
  exact List.map_congr_left fun address haddress => BitAddress.parse_text (h address haddress)

/-- A memory of empty frames has no set bit. -/
theorem FrameMemory.isSet_of_empty
    (h : ∀ address frame, memory.get? address = some frame → frame = .empty) (address : UInt32)
    (index : Nat) : memory.isSet address index = false := by
  rw [isSet]
  cases hframe : memory.get? address with
  | none => rfl
  | some frame => rw [h address frame hframe, Option.any_some, Frame.get_empty]

/-- The bits of a decoded stream are places of a memory that has the frames of its report. -/
theorem FrameMemory.contains_placesOutside_bits (h : decode order bytes = .ok report)
    (haddresses : ∀ address ∈ report.frames.addresses, address ∈ memory.addresses) :
    ∀ place ∈ placesOutside ∅ report.bits,
      place.2 < Frame.bitCount ∧ memory.contains place.1 = true := by
  intro place hplace
  obtain ⟨address, haddress, -, rfl⟩ := mem_placesOutside.1 hplace
  refine ⟨(isData_of_decode h haddress).1.index_lt, mem_addresses.1 (haddresses _ ?_)⟩
  exact mem_addresses.2
    ((contains_ofBits (fun _ hbit => (isData_of_decode h hbit).1) _).2 ⟨address, haddress, rfl⟩)

namespace CommandLine.Dump

open FrameMemory

/-- A dump of a stream that can be decoded prints the listing. -/
theorem perform_eq_listing {files : Files} {dump : Dump} (h : decode order bytes = .ok report)
    (hhex : dump.hex = false) (hread : files.read dump.bitstream = .ok bytes)
    (horder : dump.frameOrder files = .ok order) :
    dump.perform files = .ok (report.listing dump.comments) := by
  rw [perform, hread, hhex, horder]
  show (do let report ← orFail (.decode dump.bitstream) (ConfigStream.decode order bytes)
           pure (report.listing dump.comments)) = _
  rw [h]
  rfl

/-- What a dump prints for a stream that can be decoded can be read back as a harness, with no frame
left out. Into empty frames that include those of the report it brings exactly the bits of the
report. -/
theorem listing_as_harness (h : decode order bytes = .ok report)
    (hempty : ∀ address frame, memory.get? address = some frame → frame = .empty)
    (haddresses : ∀ address ∈ report.frames.addresses, address ∈ memory.addresses) :
    (∀ files (dump : Dump), dump.hex = false → files.read dump.bitstream = .ok bytes →
      dump.frameOrder files = .ok order →
      dump.perform files = .ok (report.listing dump.comments)) ∧
    ∀ comments, ∃ filled,
      memory.assignHarness (report.listing comments) ∅ = (filled, .ok report.bits.length) ∧
      (∀ address, filled.contains address = memory.contains address) ∧
      ∀ address index, filled.isSet address index = report.frames.isSet address index := by
  refine ⟨fun _ _ hhex hread horder => perform_eq_listing h hhex hread horder, fun comments => ?_⟩
  have hbits : ∀ address ∈ report.bits, address.InFrame := fun address haddress =>
    (isData_of_decode h haddress).1
  obtain ⟨filled, hfilled⟩ := exists_setBits (contains_placesOutside_bits h haddresses)
  obtain ⟨-, hcontains, hset⟩ := setBits_eq_ok.1 hfilled
  refine ⟨filled, assignHarness_eq_ok.2 ⟨_, reads_listing hbits comments, hfilled, ?_⟩, hcontains,
    fun address index => ?_⟩
  · rw [placesOutside_empty, List.length_map]
  · -- Nothing else was set, and the bits of the report are those of its frames.
    rw [Bool.eq_iff_iff, hset, isSet_of_empty hempty, Report.frames, isSet_ofBits hbits,
      placesOutside_empty, List.mem_map]
    simp only [Bool.false_eq_true, false_or, BitAddress.place, Prod.mk.injEq]
    constructor
    · rintro ⟨bit, hbit, rfl, rfl⟩
      exact ⟨bit, hbit, rfl, rfl⟩
    · rintro ⟨bit, hbit, rfl, rfl⟩
      exact ⟨bit, hbit, rfl, rfl⟩

/-- A stream that stops being read after two bits is dumped with comments, and the listing brings
these bits into one of two empty frames. -/
theorem listing_as_harness_stopped :
    let bytes := [syncWord, (Header.write .far 1).encode, 0x100, (Header.write .fdri 1).encode,
      0x80000001, 0xE0000000].flatMap Word.toBytes
    let report : Report :=
      ⟨[.diagnostic (.syncAt 0), .diagnostic (.write .far 1), .diagnostic (.moveTo 0x100),
        .diagnostic (.write .fdri 1), .bit ⟨0x100, 0, 0⟩, .bit ⟨0x100, 0, 31⟩,
        .diagnostic (.unknownHeader 7 0xE0000000)]⟩
    let memory := FrameMemory.ofAddresses [0x100, 0x101]
    decode .empty bytes = .ok report ∧
      Dump.perform ⟨fun _ => .ok bytes⟩ ⟨"stream", none, true, false⟩ = .ok (report.listing true) ∧
      ∃ filled, memory.assignHarness (report.listing true) ∅ = (filled, .ok 2) ∧
        filled.isSet 0x100 31 = true ∧ filled.isSet 0x101 31 = false := by
  intro bytes report memory
  have hreport : decode .empty bytes = .ok report := by decide +kernel
  have hempty (address : UInt32) (frame : Frame) (hframe : memory.get? address = some frame) :
      frame = .empty := by
    simp only [memory, FrameMemory.ofAddresses, FrameMemory.reset, List.foldl_cons,
      List.foldl_nil, FrameMemory.get?_insert, FrameMemory.get?_empty] at hframe
    split at hframe
    · exact (Option.some.inj hframe).symm
    · split at hframe
      · exact (Option.some.inj hframe).symm
      · cases hframe
  have hframes : report.frames.addresses = [0x100] := by decide +kernel
  have haddresses : ∀ address ∈ report.frames.addresses, address ∈ memory.addresses := by
    rw [hframes, List.forall_mem_singleton]
    decide +kernel
  obtain ⟨hperform, hlisting⟩ := listing_as_harness hreport hempty haddresses
  obtain ⟨filled, hfilled, -, hset⟩ := hlisting true
  refine ⟨hreport, hperform _ _ rfl rfl rfl, filled, hfilled, ?_, ?_⟩
  · rw [hset]
    decide +kernel
  · rw [hset]
    decide +kernel

end CommandLine.Dump

end ConfigStream
