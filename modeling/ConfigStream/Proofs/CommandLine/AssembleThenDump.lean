import ConfigStream.CommandLine.Run
import ConfigStream.Proofs.Database.Assignment
import ConfigStream.Proofs.Database.FrameList
import ConfigStream.Proofs.Encoding.AnyOrder
import ConfigStream.Proofs.Encoding.FirstSync

/-!
# Assembling and dumping

A memory that is assembled has the frames of the device and those of the region. A region may have
frames that the device has not; no order leads to them, nor on from them. So a dump that follows the
frames of the device finds the assembled bits in their places if and only if frames with data, but
for the first, are frames of the device that come right after such frames (`Database.Reaches`).
-/

namespace ConfigStream

namespace Database

/-- Every frame with data, but the first of all frames, is a frame of the device and comes right
after a frame of the device. -/
def Reaches (database : Database) (memory : FrameMemory) : Prop :=
  memory.toList.IsChain fun entry next =>
    next.2.dataBits = [] ∨
      entry.1 ∈ database.frames.frameAddresses ∧ next.1 ∈ database.frames.frameAddresses

instance (database : Database) (memory : FrameMemory) : Decidable (database.Reaches memory) :=
  inferInstanceAs (Decidable (memory.toList.IsChain fun entry next =>
    next.2.dataBits = [] ∨
      entry.1 ∈ database.frames.frameAddresses ∧ next.1 ∈ database.frames.frameAddresses))

end Database

namespace Encoding

/-- In the order of some ascending addresses, a decoder goes from one frame of a memory to the next
if and only if the order has both. -/
theorem landing_ofAddresses {listed addresses : List UInt32} (hlisted : listed.Pairwise (· < ·))
    (haddresses : addresses.Pairwise (· < ·)) (hsubset : listed ⊆ addresses)
    {address next : UInt32} (hpair : [address, next] <:+: addresses) :
    landing (.ofAddresses listed) (.ofAddresses listed) address = next ↔
      address ∈ listed ∧ next ∈ listed := by
  obtain ⟨-, -, hlt, hnone⟩ := (FrameOrder.neighbours_iff haddresses).1 hpair
  constructor
  · intro h
    cases hnext : (FrameOrder.ofAddresses listed).next? address with
    | none =>
        -- Where the order ends a decoder stays, and the next frame is another.
        have hstays : address = next := by simpa [landing, FrameCursor.after, hnext] using h
        exact absurd hstays (UInt32.ne_of_lt hlt)
    | some following =>
        obtain rfl : following = next := (landing_self hnext).symm.trans h
        obtain ⟨haddress, hfollowing, -, -⟩ :=
          (FrameOrder.neighbours_iff hlisted).1 ((FrameOrder.next?_ofAddresses hlisted).1 hnext)
        exact ⟨haddress, hfollowing⟩
  · rintro ⟨haddress, hnext⟩
    have hneighbours : [address, next] <:+: listed :=
      (FrameOrder.neighbours_iff hlisted).2
        ⟨haddress, hnext, hlt, fun other hother => hnone other (hsubset hother)⟩
    exact landing_self ((FrameOrder.next?_ofAddresses hlisted).2 hneighbours)

end Encoding

namespace Database

open Encoding

variable {database : Database} {memory : FrameMemory}

/-- Two entries that stand side by side have addresses that do. -/
theorem infix_addresses {entry next : UInt32 × Frame} {front back : List (UInt32 × Frame)}
    (h : memory.toList = front ++ entry :: next :: back) :
    [entry.1, next.1] <:+: memory.addresses := by
  refine ⟨front.map Prod.fst, back.map Prod.fst, ?_⟩
  rw [← memory.map_fst_toList, h]
  simp

/-- A decoder that follows the order of a database that a memory has all frames of finds each frame
after the one before it if and only if the order reaches them. -/
theorem continues_iff_reaches
    (hframes : database.frames.frameAddresses ⊆ memory.addresses) :
    memory.toList.IsChain (Continues database.frameOrder database.frameOrder) ↔
      database.Reaches memory := by
  have hlisted := database.frames.frameAddresses_pairwise
  rw [Reaches, List.isChain_iff_forall_rel_of_append_cons_cons,
    List.isChain_iff_forall_rel_of_append_cons_cons]
  have hpair {entry next : UInt32 × Frame} {front back : List (UInt32 × Frame)}
      (h : memory.toList = front ++ entry :: next :: back) :
      Continues database.frameOrder database.frameOrder entry next ↔
        next.2.dataBits = [] ∨
          entry.1 ∈ database.frames.frameAddresses ∧
            next.1 ∈ database.frames.frameAddresses := by
    rw [Continues, frameOrder, or_comm,
      landing_ofAddresses hlisted memory.addresses_pairwise hframes (infix_addresses h)]
  constructor
  · intro h entry next front back hentries
    exact (hpair hentries).1 (h hentries)
  · intro h entry next front back hentries
    exact (hpair hentries).2 (h hentries)

/-- The order of a database reaches all frames of a memory that has no others. -/
theorem reaches_of_subset (h : memory.addresses ⊆ database.frames.frameAddresses) :
    database.Reaches memory := by
  rw [Reaches, List.isChain_iff_forall_rel_of_append_cons_cons]
  intro entry next front back hentries
  have hpair := (infix_addresses hentries).subset
  exact .inr ⟨h (hpair (by simp)), h (hpair (by simp))⟩

end Database

namespace CommandLine

open Encoding

/-- A fault that is turned into a failure is no success. -/
theorem orFail_eq_ok {ε α : Type} {failure : ε → Failure} {action : Except ε α} {value : α} :
    orFail failure action = .ok value ↔ action = .ok value := by
  cases action <;> simp [orFail]

namespace Assembly

variable {files : Files} {assembly : Assembly} {database : Database} {memory : FrameMemory}
  {bitstream : Bitstream}

/-- The frames of a filled memory are those of the device and of the region. -/
theorem mem_addresses_fill (h : assembly.fill files database = .ok memory) :
    ∃ region, AddressSet.read files assembly.region = .ok region ∧
      ∀ address, address ∈ memory.addresses ↔
        address ∈ database.frames.frameAddresses ∨ address ∈ region := by
  obtain ⟨region, hregion, h⟩ := Except.bind_eq_ok.1 h
  obtain ⟨harness, -, h⟩ := Except.bind_eq_ok.1 h
  obtain ⟨ingested, -, h⟩ := Except.bind_eq_ok.1 h
  obtain ⟨features, -, h⟩ := Except.bind_eq_ok.1 h
  obtain ⟨applied, -, h⟩ := Except.bind_eq_ok.1 h
  have hlast : (Design.assignFeatures files
      ⟨database, ((database.blankMemory.reset region.toList).assignHarness harness region).1⟩
      features).1.memory = memory := Except.ok.inj h
  refine ⟨region, orFail_eq_ok.1 hregion, fun address => ?_⟩
  -- Only the resets before the harness make frames.
  rw [← hlast, FrameMemory.mem_addresses, (Design.growsTo_assignFeatures ..).contains_eq,
    (FrameMemory.growsTo_assignHarness ..).contains_eq, FrameMemory.contains_reset,
    Database.blankMemory, FrameMemory.contains_ofAddresses, Bool.or_eq_true,
    List.contains_iff_mem, List.contains_iff_mem, Std.ExtTreeSet.mem_toList]

/-- What an assembly makes is the bitstream of the filled memory. -/
theorem perform_eq_ok :
    assembly.perform files = .ok bitstream ↔
      ∃ profile database memory, assembly.loadProfile files = .ok profile ∧
        Database.load files assembly.database = .ok database ∧
        assembly.fill files database = .ok memory ∧
        Bitstream.ofMemory profile memory database.frameOrder = .ok bitstream := by
  simp only [perform, Except.bind_eq_ok, orFail_eq_ok]
  constructor
  · rintro ⟨profile, hprofile, database, hdatabase, memory, hmemory, made, hmade, -, -, hlast⟩
    obtain rfl := Except.ok.inj hlast
    exact ⟨profile, database, memory, hprofile, hdatabase, hmemory, hmade⟩
  · rintro ⟨profile, database, memory, hprofile, hdatabase, hmemory, hmade⟩
    exact ⟨profile, hprofile, database, hdatabase, memory, hmemory, bitstream, hmade, (),
      checkSync_ofMemory hmade, rfl⟩

/-- What is assembled is dumped with the frame list of its database as a clean stream whose data
bits are in their places in the frames. They are in the frames that they were assembled in if and
only if the order of the device reaches these, as it does if the region has no other frames. -/
theorem perform_then_decode (h : assembly.perform files = .ok bitstream)
    (hclear : ∀ profile, assembly.loadProfile files = .ok profile → HeaderIsClear profile) :
    ∃ database memory order report, Database.load files assembly.database = .ok database ∧
      assembly.fill files database = .ok memory ∧
      FrameOrder.read files (Database.framesPath assembly.database) = .ok order ∧
      decode order bitstream.data = .ok report ∧ report.isClean = true ∧
      report.bits.map placeInFrame = memory.dataBits.map placeInFrame ∧
      (report.bits = memory.dataBits ↔ database.Reaches memory) ∧
      (∀ region, AddressSet.read files assembly.region = .ok region →
        (∀ address ∈ region, address ∈ database.frames.frameAddresses) →
        report.bits = memory.dataBits) := by
  obtain ⟨profile, database, memory, hprofile, hdatabase, hmemory, hmade⟩ := perform_eq_ok.1 h
  obtain ⟨hencode, -, -⟩ := Bitstream.ofMemory_eq_ok hmade
  obtain ⟨read, hread, haddresses⟩ := mem_addresses_fill hmemory
  have hframes : database.frames.frameAddresses ⊆ memory.addresses :=
    fun address hlisted => (haddresses address).2 (.inl hlisted)
  obtain ⟨report, hreport, hclean, hplaces, hbits⟩ :=
    decode_encode_bits_iff hencode (hclear profile hprofile) database.frameOrder
  rw [Database.continues_iff_reaches hframes] at hbits
  refine ⟨database, memory, database.frameOrder, report, hdatabase, hmemory,
    Database.read_frameOrder hdatabase, hreport, hclean, hplaces, hbits, ?_⟩
  intro region hregion hdevice
  obtain rfl : read = region := Except.ok.inj (hread.symm.trans hregion)
  apply hbits.2
  apply Database.reaches_of_subset
  intro address haddress
  rcases (haddresses address).1 haddress with hlisted | houtside
  · exact hlisted
  · exact hdevice address houtside

/-- The files of a device with the frames 0 and 2, of which the harness sets a bit in frame 2. -/
def gapFiles (region : String) : Files :=
  (Disk.ofFiles [("db/frames.txt", textBytes "0x0\n0x2\n"), ("db/tiles.txt", []),
    ("region", textBytes region), ("harness", textBytes "F0x00000002W000B00\n"),
    ("features", [])]).toFiles

/-- The assembly of these files. -/
def gapAssembly : Assembly := ⟨"db", "region", "harness", "features", "out", none, false⟩

/-- The first address of what is assembled, its data bits, where a dump finds them, and whether the
order of the device reaches them. -/
def gapBits (files : Files) :
    Except Failure (Option UInt32 × List BitAddress × List BitAddress × Bool) := do
  let database ← orFail (.openDatabase "db") (Database.load files "db")
  let memory ← gapAssembly.fill files database
  pure (memory.first?, memory.dataBits,
    placedBits database.frameOrder database.frameOrder 0 memory.toList,
    decide (database.Reaches memory))

/-- What is assembled has these addresses and bits. -/
theorem gapAssembly_perform {files : Files} {bits found : List BitAddress} {reached : Bool}
    (h : gapBits files = .ok (some 0, bits, found, reached)) :
    ∃ database memory bitstream, Database.load files "db" = .ok database ∧
      gapAssembly.fill files database = .ok memory ∧
      encode {} memory database.frameOrder = .ok bitstream.data ∧
      gapAssembly.perform files = .ok bitstream ∧ memory.first? = some 0 ∧
      memory.dataBits = bits ∧
      placedBits database.frameOrder database.frameOrder 0 memory.toList = found ∧
      decide (database.Reaches memory) = reached := by
  obtain ⟨database, hdatabase, h⟩ := Except.bind_eq_ok.1 h
  obtain ⟨memory, hmemory, h⟩ := Except.bind_eq_ok.1 h
  rw [orFail_eq_ok] at hdatabase
  have hresult := Except.ok.inj h
  simp only [Prod.mk.injEq] at hresult
  obtain ⟨hfirst, hbits, hfound, hreached⟩ := hresult
  obtain ⟨bytes, hbytes⟩ := encode_of_fits hfirst textsFit_default
  have hmade := Bitstream.ofMemory_of_encode hbytes
  have hperform : gapAssembly.perform files = .ok _ :=
    perform_eq_ok.2 ⟨{}, database, memory, rfl, hdatabase, hmemory, hmade⟩
  exact ⟨database, memory, _, hdatabase, hmemory, hbytes, hperform, hfirst, hbits, hfound, hreached⟩

/-- With a region in the device, a dump tells the bit of the harness. -/
theorem perform_then_decode_inside :
    ∃ bitstream order report, gapAssembly.perform (gapFiles "0x0\n") = .ok bitstream ∧
      FrameOrder.read (gapFiles "0x0\n") "db/frames.txt" = .ok order ∧
      decode order bitstream.data = .ok report ∧ report.bits = [⟨2, 0, 0⟩] := by
  have hbits : gapBits (gapFiles "0x0\n") = .ok (some 0, [⟨2, 0, 0⟩], [⟨2, 0, 0⟩], true) := by
    decide +kernel
  obtain ⟨database, memory, bitstream, hdatabase, hmemory, -, hperform, -, hdata, -, hreaches⟩ :=
    gapAssembly_perform hbits
  obtain ⟨loaded, filled, order, report, hloaded, hfilled, horder, hreport, -, -, hown, -⟩ :=
    perform_then_decode hperform
      fun profile hprofile => Except.ok.inj hprofile ▸ headerIsClear_default
  obtain rfl : database = loaded := Except.ok.inj (hdatabase.symm.trans hloaded)
  obtain rfl : memory = filled := Except.ok.inj (hmemory.symm.trans hfilled)
  exact ⟨bitstream, order, report, hperform, horder, hreport,
    (hown.2 (of_decide_eq_true hreaches)).trans hdata⟩

/-- With a region of the frame between those of the device, a dump tells the bit of the harness in
the frame of the region. -/
theorem perform_then_decode_gap :
    ∃ bitstream database memory order report,
      gapAssembly.perform (gapFiles "0x1\n") = .ok bitstream ∧
      Database.load (gapFiles "0x1\n") "db" = .ok database ∧
      gapAssembly.fill (gapFiles "0x1\n") database = .ok memory ∧
      FrameOrder.read (gapFiles "0x1\n") "db/frames.txt" = .ok order ∧
      gapAssembly.loadProfile (gapFiles "0x1\n") = .ok {} ∧ HeaderIsClear {} ∧
      decode order bitstream.data = .ok report ∧
      memory.dataBits = [⟨2, 0, 0⟩] ∧ report.bits = [⟨1, 0, 0⟩] := by
  have hbits : gapBits (gapFiles "0x1\n") = .ok (some 0, [⟨2, 0, 0⟩], [⟨1, 0, 0⟩], false) := by
    decide +kernel
  obtain ⟨database, memory, bitstream, hdatabase, hmemory, hencode, hperform, hmemoryFirst, hdata,
    hfound, -⟩ := gapAssembly_perform hbits
  obtain ⟨first, hfirst, hdecode⟩ := decode_encode_placed hencode headerIsClear_default
  obtain rfl : first = 0 := Option.some.inj (hfirst.symm.trans hmemoryFirst)
  obtain ⟨report, hreport, hplaced, -⟩ := hdecode database.frameOrder
  exact ⟨bitstream, database, memory, database.frameOrder, report, hperform, hdatabase, hmemory,
    Database.read_frameOrder hdatabase, rfl, headerIsClear_default, hreport, hdata,
    hplaced.trans hfound⟩

end Assembly

end CommandLine

end ConfigStream
