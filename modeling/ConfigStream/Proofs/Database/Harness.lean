import ConfigStream.Proofs.Database.Assignment
import ConfigStream.Proofs.Database.Setting

/-!
# What a harness sets

A harness is worked through to its end if and only if every line is a bit address and the bits
outside the region can be set; then exactly these are set (`FrameMemory.assignHarness_eq_ok`). A
line of the region changes nothing, so harnesses that ask for the same bits leave the same memory
(`FrameMemory.assignHarness_congr`).
-/

namespace ConfigStream

/-- Where the bit of an address is. -/
def BitAddress.place (address : BitAddress) : UInt32 × Nat := (address.frame, address.index)

namespace Harness

/-- The places of the bits whose frames are not in a region. -/
def placesOutside (region : AddressSet) (listed : List BitAddress) : List (UInt32 × Nat) :=
  (listed.filter fun address => !region.contains address.frame).map BitAddress.place

/-- Every line is a bit address, and these are the addresses. -/
def Reads (lines : List Text.Entry) (listed : List BitAddress) : Prop :=
  lines.map (fun line => BitAddress.parse line.text) = listed.map .ok

/-- A harness asks for a bit: one of its lines is the address of the bit, and its frame is not in
the region. -/
def Asks (region : AddressSet) (text : String) (frame : UInt32) (index : Nat) : Prop :=
  ∃ line ∈ Text.entries text, ∃ address, BitAddress.parse line.text = .ok address ∧
    address.frame ∉ region ∧ frame = address.frame ∧ index = address.index

variable {region : AddressSet} {lines : List Text.Entry} {listed : List BitAddress}

theorem placesOutside_of_mem {address : BitAddress} (h : address.frame ∈ region) :
    placesOutside region [address] = [] := by
  simp [placesOutside, h]

theorem placesOutside_of_not_mem {address : BitAddress} (h : address.frame ∉ region) :
    placesOutside region [address] = [address.place] := by
  rw [Std.ExtTreeSet.mem_iff_contains, Bool.not_eq_true] at h
  rw [placesOutside, List.filter_cons_of_pos (by rw [h, Bool.not_false])]
  rfl

theorem placesOutside_cons (address : BitAddress) (listed : List BitAddress) :
    placesOutside region (address :: listed) =
      placesOutside region [address] ++ placesOutside region listed := by
  rw [placesOutside, ← List.singleton_append, List.filter_append, List.map_append]
  rfl

theorem mem_placesOutside {place : UInt32 × Nat} :
    place ∈ placesOutside region listed ↔
      ∃ address ∈ listed, address.frame ∉ region ∧ address.place = place := by
  simp only [placesOutside, List.mem_map, List.mem_filter, Bool.not_eq_true', and_assoc,
    Std.ExtTreeSet.mem_iff_contains, Bool.not_eq_true]

/-- Outside no region are all bits. -/
theorem placesOutside_empty : placesOutside ∅ listed = listed.map BitAddress.place := by
  rw [placesOutside, List.filter_eq_self.2]
  simp

/-- The addresses are those of the lines. -/
theorem Reads.mem_iff (h : Reads lines listed) {address : BitAddress} :
    address ∈ listed ↔ ∃ line ∈ lines, BitAddress.parse line.text = .ok address :=
  mem_iff_of_map_eq (fun _ _ => Except.ok.inj) h

/-- The places outside the region are the bits a harness asks for. -/
theorem mem_placesOutside_iff_asks {text : String} (h : Reads (Text.entries text) listed)
    {frame : UInt32} {index : Nat} :
    (frame, index) ∈ placesOutside region listed ↔ Asks region text frame index := by
  rw [mem_placesOutside, Asks]
  constructor
  · rintro ⟨address, haddress, houtside, hplace⟩
    obtain ⟨line, hline, hparse⟩ := h.mem_iff.1 haddress
    obtain ⟨hframe, hindex⟩ := Prod.mk.inj hplace
    exact ⟨line, hline, address, hparse, houtside, hframe.symm, hindex.symm⟩
  · rintro ⟨line, hline, address, hparse, houtside, rfl, rfl⟩
    exact ⟨address, h.mem_iff.2 ⟨line, hline, hparse⟩, houtside, rfl⟩

end Harness

namespace FrameMemory

open Harness

variable {memory filled : FrameMemory} {region : AddressSet} {lines : List Text.Entry}
  {line : Text.Entry} {count total : Nat} {text other : String}

/-- A line that does not fail is a bit address, and its bit is set and counted if it is outside the
region. -/
theorem harnessLine_eq_none :
    harnessLine region (memory, count) line = ((filled, total), none) ↔
      ∃ address, BitAddress.parse line.text = .ok address ∧
        memory.setBits (placesOutside region [address]) = .ok filled ∧
        total = count + (placesOutside region [address]).length := by
  unfold harnessLine
  cases BitAddress.parse line.text with
  | error fault => simp
  | ok address =>
      simp only [Except.ok.injEq, exists_eq_left']
      by_cases hregion : address.frame ∈ region
      · rw [placesOutside_of_mem hregion, setBits_nil]
        simp only [Std.ExtTreeSet.contains_iff_mem, hregion, if_true, Prod.mk.injEq, and_true,
          Except.ok.injEq, List.length_nil, Nat.add_zero, eq_comm (a := total)]
      · rw [placesOutside_of_not_mem hregion, setBits_singleton]
        simp only [Std.ExtTreeSet.contains_iff_mem, hregion, if_false, BitAddress.place]
        cases memory.setBit address.frame address.index with
        | error fault => simp
        | ok next => simp [eq_comm]

theorem runSteps_harnessLine :
    runSteps (harnessLine region) (memory, count) lines = ((filled, total), none) ↔
      ∃ listed, Reads lines listed ∧ memory.setBits (placesOutside region listed) = .ok filled ∧
        total = count + (placesOutside region listed).length := by
  induction lines generalizing memory count with
  | nil =>
      simp only [runSteps, Reads, List.map_nil, List.nil_eq, List.map_eq_nil_iff, exists_eq_left]
      simp [placesOutside, setBits_nil, eq_comm]
  | cons line lines ih =>
      rw [runSteps_cons_eq_none]
      constructor
      · rintro ⟨⟨next, seen⟩, hline, hlines⟩
        obtain ⟨address, hparse, hnext, rfl⟩ := harnessLine_eq_none.1 hline
        obtain ⟨listed, hlisted, hfilled, rfl⟩ := ih.1 hlines
        refine ⟨address :: listed, congrArg₂ List.cons hparse hlisted, ?_, ?_⟩
        · rw [placesOutside_cons address listed]
          exact setBits_append.2 ⟨next, hnext, hfilled⟩
        · rw [placesOutside_cons address listed, List.length_append, Nat.add_assoc]
      · rintro ⟨listed, hlisted, hfilled, rfl⟩
        cases listed with
        | nil => cases hlisted
        | cons address listed =>
            obtain ⟨hparse, hlisted⟩ := List.cons.inj hlisted
            rw [placesOutside_cons address listed] at hfilled
            obtain ⟨next, hnext, hfilled⟩ := setBits_append.1 hfilled
            refine ⟨(next, _), harnessLine_eq_none.2 ⟨address, hparse, hnext, rfl⟩,
              ih.2 ⟨listed, hlisted, hfilled, ?_⟩⟩
            rw [placesOutside_cons address listed, List.length_append, Nat.add_assoc]

/-- A harness is worked through to its end if and only if every line is a bit address and the bits
outside the region can be set. They are, and they are counted. -/
theorem assignHarness_eq_ok :
    memory.assignHarness text region = (filled, .ok count) ↔
      ∃ listed, Reads (Text.entries text) listed ∧
        memory.setBits (placesOutside region listed) = .ok filled ∧
        count = (placesOutside region listed).length := by
  simp only [assignHarness_eq, counted_eq_ok, runSteps_harnessLine, Nat.zero_add]

/-- Harnesses that ask for the same bits leave the same memory. -/
theorem assignHarness_congr (h : memory.assignHarness text region = (filled, .ok count))
    (hlines : ∀ line ∈ Text.entries other, ∃ address, BitAddress.parse line.text = .ok address)
    (hsame : Asks region other = Asks region text) :
    ∃ seen, memory.assignHarness other region = (filled, .ok seen) := by
  obtain ⟨listed, hlisted, hfilled, -⟩ := assignHarness_eq_ok.1 h
  obtain ⟨found, hfound⟩ := exists_map_eq hlines
  refine ⟨_, assignHarness_eq_ok.2 ⟨found, hfound, ?_, rfl⟩⟩
  apply (setBits_congr ?_).1 hfilled
  intro place
  rw [mem_placesOutside_iff_asks hlisted, mem_placesOutside_iff_asks hfound, hsame]

end FrameMemory

end ConfigStream
