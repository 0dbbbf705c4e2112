import ConfigStream.Proofs.Database.FrameList
import ConfigStream.Proofs.Frame.Memory
import Mathlib.Data.List.Sort

/-!
# The succession of frames

Assembling makes a memory of the frames that the frame list of a database has; dumping makes an
order of them from the list alone. Both leave out the address that is written after the last frame,
and who follows the order from the first frame of the memory visits its frames, each once
(`Database.frames_in_succession`).
-/

namespace ConfigStream

namespace FrameMemory

variable {addresses : List UInt32}

/-- A memory of frames at ascending addresses has these in their order. -/
theorem addresses_ofAddresses (h : addresses.Pairwise (· < ·)) :
    (ofAddresses addresses).addresses = addresses := by
  apply (ofAddresses addresses).addresses_pairwise.eq_of_mem_iff h
  intro address
  rw [mem_addresses, contains_ofAddresses, List.contains_iff_mem]

end FrameMemory

/-- An order leads through the frames of a memory: from each to the least with a greater address,
and from the first through all, each once in ascending order, until it stops. -/
structure FrameOrder.Enumerates (order : FrameOrder) (memory : FrameMemory) : Prop where
  next?_iff : ∀ address next, order.next? address = some next ↔
    memory.contains address = true ∧
      IsLeast {other | memory.contains other = true ∧ address < other} next
  visits : ∃ visited, (∀ walk, order.Visits memory.first? walk ↔ walk = visited) ∧
    visited.Pairwise (· < ·) ∧ ∀ address, address ∈ visited ↔ memory.contains address = true

/-- The order of ascending addresses leads through the frames at these addresses. -/
theorem FrameOrder.enumerates_ofAddresses {addresses : List UInt32}
    (h : addresses.Pairwise (· < ·)) :
    (FrameOrder.ofAddresses addresses).Enumerates (.ofAddresses addresses) := by
  have hmem (address : UInt32) :
      address ∈ addresses ↔ (FrameMemory.ofAddresses addresses).contains address = true := by
    rw [FrameMemory.contains_ofAddresses, List.contains_iff_mem]
  constructor
  · intro address next
    simp only [next?_ofAddresses_isLeast h, hmem]
  · refine ⟨addresses, ?_, h, hmem⟩
    intro walk
    have hvisits := visits_ofAddresses h
    rw [FrameMemory.first?, FrameMemory.addresses_ofAddresses h]
    constructor
    · exact hvisits.unique
    · intro hwalk
      rw [hwalk]
      exact hvisits

namespace Database

variable {path text : String} {listed : AddressSet}

/-- A database has a frame at each listed address but the one written after the last frame. -/
theorem contains_blankMemory (database : Database) (address : UInt32) :
    database.blankMemory.contains address = true ↔
      address ∈ database.frames ∧ address ≠ endOfConfiguration := by
  rw [blankMemory, FrameMemory.contains_ofAddresses, List.contains_iff_mem,
    AddressSet.mem_frameAddresses]

/-- The order of a database leads through its frames. -/
theorem frameOrder_enumerates (database : Database) :
    database.frameOrder.Enumerates database.blankMemory :=
  FrameOrder.enumerates_ofAddresses database.frames.frameAddresses_pairwise

/-- A text that is read as the frame list of a device is read as the same addresses where lines are
not checked. So the order that is made of a file with this text is that of every database loaded
with it. It leads through the frames of the database, which are at the listed addresses except the
one written after the last frame; to that one and from it nothing leads. -/
theorem frames_in_succession (h : AddressSet.parseStrict path text = .ok listed) :
    AddressSet.parse text = listed ∧
    (∀ address, address ∈ listed ↔
      ∃ line ∈ Text.entries text, Text.leadingHex? line.text.toList = some address) ∧
    ∀ files root database, files.readText (framesPath root) = .ok text →
      load files root = .ok database →
      (∀ file, files.readText file = .ok text →
        FrameOrder.read files file = .ok database.frameOrder) ∧
      (∀ address, database.blankMemory.contains address = true ↔
        address ∈ listed ∧ address ≠ endOfConfiguration) ∧
      database.frameOrder.Enumerates database.blankMemory ∧
      database.blankMemory.contains endOfConfiguration = false ∧
      database.frameOrder.next? endOfConfiguration = none ∧
      ∀ address, database.frameOrder.next? address ≠ some endOfConfiguration := by
  have hparse := AddressSet.parse_of_parseStrict h
  refine ⟨hparse, ?_, ?_⟩
  · intro address
    rw [AddressSet.mem_foldlM h, List.mem_filterMap]
    simp
  · intro files root database htext hload
    obtain ⟨-, other, hother, hframes⟩ := frames_of_load hload
    obtain rfl : text = other := Except.ok.inj (htext.symm.trans hother)
    have hlisted : database.frames = listed := hframes.symm.trans hparse
    have hcontains := contains_blankMemory database
    have hleads := frameOrder_enumerates database
    have hend : database.blankMemory.contains endOfConfiguration = false :=
      Bool.eq_false_iff.2 fun hframe => ((hcontains _).1 hframe).2 rfl
    refine ⟨?_, hlisted ▸ hcontains, hleads, hend, ?_, ?_⟩
    · intro file hfile
      rw [FrameOrder.read, AddressSet.read_eq_ok.2 ⟨text, hfile, hframes⟩]
      rfl
    · apply Option.eq_none_iff_forall_ne_some.2
      intro next hnext
      have hframe := ((hleads.next?_iff _ next).1 hnext).1
      rw [hend] at hframe
      cases hframe
    · intro address hnext
      have hframe := ((hleads.next?_iff address _).1 hnext).2.1.1
      rw [hend] at hframe
      cases hframe

/-- A directory whose frame list is not in order and has the address written after the last frame in
front, and a copy of the list. -/
def unorderedFiles : Files :=
  (Disk.ofFiles [("db/frames.txt", "0x7FC0000\n10 end\n0x2 # first\n0X10\n".toUTF8.data.toList),
    ("db/tiles.txt", []),
    ("copy", "0x7FC0000\n10 end\n0x2 # first\n0X10\n".toUTF8.data.toList)]).toFiles

/-- Two frames are visited, the first with the lesser address. -/
theorem frames_in_succession_unordered :
    ∃ database, load unorderedFiles "db" = .ok database ∧
      FrameOrder.read unorderedFiles "copy" = .ok database.frameOrder ∧
      database.frameOrder.Visits database.blankMemory.first? [2, 0x10] ∧
      database.frameOrder.next? endOfConfiguration = none := by
  have hlist : (AddressSet.parseStrict "frames.txt"
      "0x7FC0000\n10 end\n0x2 # first\n0X10\n").map (·.toList) =
        .ok [2, 0x10, endOfConfiguration] := by decide +kernel
  have hmade : (load unorderedFiles "db").map (fun _ => ()) = .ok () := by decide +kernel
  obtain ⟨listed, hparse, htoList⟩ := Except.map_eq_ok.1 hlist
  obtain ⟨database, hload, -⟩ := Except.map_eq_ok.1 hmade
  obtain ⟨-, -, hdatabase⟩ := frames_in_succession hparse
  obtain ⟨hread, hcontains, hleads, -, hend, -⟩ :=
    hdatabase unorderedFiles "db" database (by decide +kernel) hload
  obtain ⟨visited, hvisits, hvisited, hmem⟩ := hleads.visits
  have hfound : [2, 0x10] = visited := by
    refine List.Pairwise.eq_of_mem_iff (by decide) hvisited fun address => ?_
    rw [hmem, hcontains, ← Std.ExtTreeSet.mem_toList, htoList]
    simp only [List.mem_cons, List.not_mem_nil, or_false]
    constructor
    · intro h
      rcases h with rfl | rfl
      · decide
      · decide
    · intro h
      obtain ⟨rfl | rfl | rfl, hne⟩ := h
      · exact .inl rfl
      · exact .inr rfl
      · exact absurd rfl hne
  exact ⟨database, hload, hread "copy" (by decide +kernel), (hvisits _).2 hfound, hend⟩

end Database

end ConfigStream
