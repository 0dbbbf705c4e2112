import ConfigStream.Proofs.Database.FrameList
import ConfigStream.Proofs.Frame.Memory

/-!
# Setting many bits

Whatever sets bits one after the other sets a list of places. That succeeds if and only if every
place is a bit of an existing frame, and then the memory has these bits besides its own and no
other (`FrameMemory.setBits_eq_ok`). So neither the sequence of the places counts, nor how often a
place is listed (`FrameMemory.setBits_congr`).
-/

namespace ConfigStream

namespace FrameMemory

/-- Set bits, given by their frames and their indices, up to the first that cannot be set. -/
def setBits (memory : FrameMemory) (places : List (UInt32 × Nat)) : Except Fault FrameMemory :=
  places.foldlM (fun memory place => memory.setBit place.1 place.2) memory

variable {memory filled next : FrameMemory} {address : UInt32} {bit : Nat}
  {places others : List (UInt32 × Nat)}

theorem setBits_nil : memory.setBits [] = .ok memory := rfl

theorem setBits_singleton {place : UInt32 × Nat} :
    memory.setBits [place] = memory.setBit place.1 place.2 :=
  bind_pure (memory.setBit place.1 place.2)

/-- Bits are set in two parts, the second in the memory that the first leaves. -/
theorem setBits_append :
    memory.setBits (places ++ others) = .ok filled ↔
      ∃ next, memory.setBits places = .ok next ∧ next.setBits others = .ok filled := by
  rw [setBits, List.foldlM_append, Except.bind_eq_ok]
  rfl

theorem setBits_cons {place : UInt32 × Nat} :
    memory.setBits (place :: places) = .ok filled ↔
      ∃ next, memory.setBit place.1 place.2 = .ok next ∧ next.setBits places = .ok filled := by
  rw [← List.singleton_append, setBits_append, setBits_singleton]

/-- Bits can be set if and only if all are bits of existing frames. The memory then has them besides
its own bits, and no other. -/
theorem setBits_eq_ok :
    memory.setBits places = .ok filled ↔
      (∀ place ∈ places, place.2 < Frame.bitCount ∧ memory.contains place.1 = true) ∧
      (∀ address, filled.contains address = memory.contains address) ∧
      ∀ address index, filled.isSet address index = true ↔
        memory.isSet address index = true ∨ (address, index) ∈ places := by
  induction places generalizing memory with
  | nil =>
      constructor
      · intro h
        obtain rfl : memory = filled := Except.ok.inj h
        simp
      · rintro ⟨-, hcontains, hset⟩
        have hsame : memory = filled := by
          apply ext_isSet
          · exact fun address => (hcontains address).symm
          · intro address index hindex
            rw [Bool.eq_iff_iff, hset]
            simp
        exact congrArg Except.ok hsame
  | cons place places ih =>
      obtain ⟨address, bit⟩ := place
      rw [setBits_cons]
      -- The memory after the first bit has the same frames, and this bit besides its own.
      have hrest {next : FrameMemory} (hnext : memory.setBit address bit = .ok next) :
          next.setBits places = .ok filled ↔
            (∀ place ∈ places, place.2 < Frame.bitCount ∧ memory.contains place.1 = true) ∧
            (∀ other, filled.contains other = memory.contains other) ∧
            ∀ other index, filled.isSet other index = true ↔
              memory.isSet other index = true ∨ (other, index) ∈ (address, bit) :: places := by
        simp only [ih, contains_setBit hnext, isSet_setBit hnext, Bool.or_eq_true,
          Bool.and_eq_true, beq_iff_eq, List.mem_cons, Prod.mk.injEq, or_assoc]
      constructor
      · rintro ⟨next, hnext, h⟩
        obtain ⟨hplaces, hfilled⟩ := (hrest hnext).1 h
        obtain ⟨hframe, hbit, -⟩ := setBit_eq_ok.1 hnext
        exact ⟨List.forall_mem_cons.2 ⟨⟨hbit, hframe⟩, hplaces⟩, hfilled⟩
      · rintro ⟨hplaces, hfilled⟩
        obtain ⟨⟨hbit, hframe⟩, hplaces⟩ := List.forall_mem_cons.1 hplaces
        have hnext := setBit_eq_ok.2 ⟨hframe, hbit, rfl⟩
        exact ⟨_, hnext, (hrest hnext).2 ⟨hplaces, hfilled⟩⟩

/-- Lists of the same places set the same bits. -/
theorem setBits_congr (h : ∀ place, place ∈ places ↔ place ∈ others) :
    memory.setBits places = .ok filled ↔ memory.setBits others = .ok filled := by
  rw [setBits_eq_ok, setBits_eq_ok]
  simp only [h]

/-- Places that a memory has can be set. -/
theorem exists_setBits
    (h : ∀ place ∈ places, place.2 < Frame.bitCount ∧ memory.contains place.1 = true) :
    ∃ filled, memory.setBits places = .ok filled := by
  induction places generalizing memory with
  | nil => exact ⟨memory, rfl⟩
  | cons place places ih =>
      obtain ⟨⟨hbit, hframe⟩, hplaces⟩ := List.forall_mem_cons.1 h
      have hnext := setBit_eq_ok.2 ⟨hframe, hbit, rfl⟩
      obtain ⟨filled, hfilled⟩ := ih fun other hother =>
        ⟨(hplaces other hother).1, (contains_setBit hnext other.1).trans (hplaces other hother).2⟩
      exact ⟨filled, setBits_cons.2 ⟨_, hnext, hfilled⟩⟩

end FrameMemory

end ConfigStream
