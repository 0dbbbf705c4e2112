import ConfigStream.Proofs.Frame.Memory
import Mathlib.Data.List.Induction

/-!
# What a frame memory remembers

Whatever is asked of a memory, it is known from the list of what was asked
(`FrameMemory.run_remembers`). It has the frames that were listed or created since it was last built
anew, and a bit is set if and only if it was set in its frame and since then neither cleared nor
written again. What fails leaves the memory. The data bits are listed in ascending order.
-/

namespace ConfigStream

/-! ## Since -/

/-- At some item, after the items before it, something has happened, and since then every item has
kept it so. -/
def Since {α : Type} (happened : List α → α → Prop) (keeps : α → Prop) (items : List α) : Prop :=
  ∃ before item after, items = before ++ item :: after ∧ happened before item ∧
    ∀ later ∈ after, keeps later

section Since

variable {α : Type} {happened : List α → α → Prop} {keeps : α → Prop}

theorem not_since_nil : ¬ Since happened keeps [] := by
  rintro ⟨before, item, after, hsplit, -⟩
  exact List.append_ne_nil_of_right_ne_nil before (List.cons_ne_nil item after) hsplit.symm

/-- It has happened at the last item, or before, and then the last item has kept it so. -/
theorem since_concat (items : List α) (last : α) :
    Since happened keeps (items ++ [last]) ↔
      happened items last ∨ (Since happened keeps items ∧ keeps last) := by
  constructor
  · rintro ⟨before, item, after, hsplit, hhappened, hkeeps⟩
    rcases after.eq_nil_or_concat with rfl | ⟨between, other, rfl⟩
    · obtain ⟨rfl, hlast⟩ := List.append_inj' hsplit rfl
      obtain rfl := List.singleton_inj.1 hlast
      exact .inl hhappened
    · rw [List.concat_eq_append] at hsplit hkeeps
      rw [← List.cons_append, ← List.append_assoc] at hsplit
      obtain ⟨rfl, hlast⟩ := List.append_inj' hsplit rfl
      obtain rfl := List.singleton_inj.1 hlast
      obtain ⟨hbetween, hother⟩ := List.forall_mem_append.1 hkeeps
      exact .inr ⟨⟨before, item, between, rfl, hhappened, hbetween⟩,
        List.forall_mem_singleton.1 hother⟩
  · rintro (hhappened | ⟨⟨before, item, after, rfl, hhappened, hkeeps⟩, hlast⟩)
    · exact ⟨items, last, [], rfl, hhappened, nofun⟩
    · refine ⟨before, item, after ++ [last], by simp, hhappened, ?_⟩
      exact List.forall_mem_append.2 ⟨hkeeps, List.forall_mem_singleton.2 hlast⟩

end Since

namespace FrameMemory

/-! ## Operations -/

/-- One thing that is asked of a memory. -/
inductive Operation where
  /-- Build it anew, with an empty frame at each listed address. -/
  | ofAddresses (addresses : List UInt32)
  /-- Put an empty frame at each listed address. -/
  | reset (addresses : List UInt32)
  /-- Set a bit, which fails outside the frames that exist. -/
  | setBit (address : UInt32) (bit : Nat)
  /-- Give a bit a value in a frame that is created if there was none. -/
  | enter (address : UInt32) (bit : Fin Frame.bitCount) (value : Bool)
  /-- Give a bit a value if its frame exists. -/
  | assign (address : UInt32) (bit : Fin Frame.bitCount) (value : Bool)

namespace Operation

/-- There is a frame at the address afterwards, whether or not there was one. -/
def Makes (address : UInt32) : Operation → Prop
  | .ofAddresses addresses | .reset addresses => address ∈ addresses
  | .enter place _ _ => place = address
  | .setBit _ _ | .assign _ _ _ => False

/-- The memory is built anew. -/
def Rebuilds : Operation → Prop
  | .ofAddresses _ => True
  | .reset _ | .setBit _ _ | .enter _ _ _ | .assign _ _ _ => False

/-- A frame at the address, if there is one afterwards, is empty. -/
def Clears (address : UInt32) : Operation → Prop
  | .ofAddresses _ => True
  | .reset addresses => address ∈ addresses
  | .setBit _ _ | .enter _ _ _ | .assign _ _ _ => False

/-- A bit is given a value in the frame at the address, if there is one. -/
def Writes (address : UInt32) (index : Nat) (value : Bool) : Operation → Prop
  | .setBit place bit => place = address ∧ bit = index ∧ bit < Frame.bitCount ∧ value = true
  | .enter place bit written | .assign place bit written =>
      place = address ∧ bit = index ∧ written = value
  | .ofAddresses _ | .reset _ => False

end Operation

/-- Do what is asked. What fails leaves the memory. -/
def perform (memory : FrameMemory) : Operation → FrameMemory
  | .ofAddresses addresses => .ofAddresses addresses
  | .reset addresses => memory.reset addresses
  | .setBit address bit =>
      match memory.setBit address bit with
      | .ok next => next
      | .error _ => memory
  | .enter address bit value => (memory.ensure address).assign address bit value
  | .assign address bit value => memory.assign address bit value

/-- Do all that is asked, one after the other, beginning without a frame. -/
def run (operations : List Operation) : FrameMemory :=
  operations.foldl perform empty

theorem run_concat (operations : List Operation) (last : Operation) :
    run (operations ++ [last]) = (run operations).perform last := by
  rw [run, List.foldl_append]
  rfl

/-! ## One operation -/

variable {memory : FrameMemory}

/-- Setting a bit gives it a value, if it is one of a frame. -/
theorem perform_setBit (memory : FrameMemory) (address : UInt32) (bit : Nat) :
    memory.perform (.setBit address bit) =
      if hbit : bit < Frame.bitCount then memory.assign address ⟨bit, hbit⟩ true else memory := by
  rw [perform, setBit]
  by_cases hbit : bit < Frame.bitCount
  · cases hframe : memory.get? address with
    | none => simp [hbit, hframe, assign]
    | some frame => simp [hbit, hframe]
  · simp [hbit]

/-- A memory has a frame if it is made, or if there was one and the memory is not built anew. -/
theorem contains_perform (memory : FrameMemory) (operation : Operation) (address : UInt32) :
    (memory.perform operation).contains address = true ↔
      operation.Makes address ∨ (memory.contains address = true ∧ ¬ operation.Rebuilds) := by
  cases operation with
  | ofAddresses addresses =>
      rw [perform, contains_ofAddresses]
      simp [Operation.Makes, Operation.Rebuilds]
  | reset addresses =>
      rw [perform, contains_reset]
      simp [Operation.Makes, Operation.Rebuilds, or_comm]
  | setBit place bit =>
      rw [perform_setBit]
      split
      · rw [contains_assign]
        simp [Operation.Makes, Operation.Rebuilds]
      · simp [Operation.Makes, Operation.Rebuilds]
  | enter place bit value =>
      rw [perform, contains_assign, contains_ensure, Bool.or_eq_true, beq_iff_eq, or_comm,
        @eq_comm _ address place]
      simp [Operation.Makes, Operation.Rebuilds]
  | assign place bit value =>
      rw [perform, contains_assign]
      simp [Operation.Makes, Operation.Rebuilds]

/-- What is set after a bit was given a value. -/
theorem isSet_assign_iff (memory : FrameMemory) (place : UInt32) (bit : Fin Frame.bitCount)
    (written : Bool) (address : UInt32) (index : Nat) :
    (memory.assign place bit written).isSet address index = true ↔
      ((place = address ∧ bit = index ∧ written = true) ∧
        (memory.assign place bit written).contains address = true) ∨
      (memory.isSet address index = true ∧
        ∀ value, ¬ (place = address ∧ bit = index ∧ written = value)) := by
  rw [isSet_assign, contains_assign]
  by_cases hplace : address = place ∧ index = bit
  · obtain ⟨rfl, rfl⟩ := hplace
    simp [and_comm]
  · have hother : ¬ (place = address ∧ bit = index) := fun h => hplace ⟨h.1.symm, h.2.symm⟩
    rw [if_neg hplace]
    simp only [← and_assoc, hother, false_and, not_false_eq_true, implies_true, and_true, false_or]

/-- A bit is set if it is written in a frame that exists then, or if it was set before and is
neither cleared nor written. -/
theorem isSet_perform (memory : FrameMemory) (operation : Operation) (address : UInt32)
    (index : Nat) :
    (memory.perform operation).isSet address index = true ↔
      (operation.Writes address index true ∧
        (memory.perform operation).contains address = true) ∨
      (memory.isSet address index = true ∧ ¬ operation.Clears address ∧
        ∀ value, ¬ operation.Writes address index value) := by
  cases operation with
  | ofAddresses addresses =>
      rw [perform, isSet_ofAddresses]
      simp [Operation.Writes, Operation.Clears]
  | reset addresses =>
      rw [perform, isSet_reset]
      simp [Operation.Writes, Operation.Clears]
  | setBit place bit =>
      rw [perform_setBit]
      split
      · rename_i hbit
        rw [isSet_assign_iff]
        simp [Operation.Writes, Operation.Clears, hbit]
      · rename_i hbit
        simp [Operation.Writes, Operation.Clears, hbit]
  | enter place bit written =>
      rw [perform, isSet_assign_iff, isSet_ensure]
      simp [Operation.Writes, Operation.Clears]
  | assign place bit written =>
      rw [perform, isSet_assign_iff]
      simp [Operation.Writes, Operation.Clears]

/-! ## All operations -/

theorem contains_run (operations : List Operation) (address : UInt32) :
    (run operations).contains address = true ↔
      Since (fun _ operation => operation.Makes address) (fun later => ¬ later.Rebuilds)
        operations := by
  induction operations using List.reverseRecOn with
  | nil =>
      refine iff_of_false ?_ not_since_nil
      simp [run]
  | append_singleton operations last ih => rw [run_concat, contains_perform, since_concat, ih]

theorem isSet_run (operations : List Operation) (address : UInt32) (index : Nat) :
    (run operations).isSet address index = true ↔
      Since
        (fun before operation => operation.Writes address index true ∧
          (run (before ++ [operation])).contains address = true)
        (fun later => ¬ later.Clears address ∧ ∀ value, ¬ later.Writes address index value)
        operations := by
  induction operations using List.reverseRecOn with
  | nil =>
      refine iff_of_false ?_ not_since_nil
      simp [run, isSet]
  | append_singleton operations last ih =>
      rw [since_concat, run_concat, isSet_perform, ih]

/-- Whatever has been asked of a memory, its frames are those that were listed or created since it
was last built anew, and a bit is set if and only if it was set in a frame that existed then, and
since then neither was the frame cleared nor the bit written. Setting a bit fails outside the
frames, and then the memory stays as it is. The data bits are the set bits outside the reserved
region, in ascending order. -/
theorem run_remembers (operations : List Operation) :
    (∀ address, (run operations).contains address = true ↔
      Since (fun _ operation => operation.Makes address) (fun later => ¬ later.Rebuilds)
        operations) ∧
    (∀ address index, (run operations).isSet address index = true ↔
      Since
        (fun before operation => operation.Writes address index true ∧
          (run (before ++ [operation])).contains address = true)
        (fun later => ¬ later.Clears address ∧ ∀ value, ¬ later.Writes address index value)
        operations) ∧
    (∀ address bit fault, (run operations).setBit address bit = .error fault ↔
      (2976 ≤ bit ∧ fault = .outsideFrame address bit) ∨
      (bit < 2976 ∧ (run operations).contains address = false ∧ fault = .noFrame address)) ∧
    (∀ address bit fault, (run operations).setBit address bit = .error fault →
      run (operations ++ [.setBit address bit]) = run operations) ∧
    (∀ address word bit, ⟨address, word, bit⟩ ∈ (run operations).dataBits ↔
      word < 93 ∧ bit < 32 ∧ Frame.isReserved word bit = false ∧
        (run operations).isSet address (32 * word + bit) = true) ∧
    (run operations).dataBits.Pairwise BitAddress.Precedes := by
  refine ⟨contains_run operations, isSet_run operations, fun _ _ _ => setBit_eq_error,
    fun address bit fault hfault => ?_, fun address word bit => ?_,
    (run operations).dataBits_pairwise⟩
  · rw [run_concat, perform, hfault]
  · rw [Nat.mul_comm]
    exact mem_dataBits_iff_isSet

/-- A frame is written, reset and joined by another, which is written as well. -/
def resetOperations : List Operation :=
  [.ofAddresses [0x100], .setBit 0x100 7, .reset [0x100, 0x500], .setBit 0x500 3]

/-- A frame that was reset into the memory takes a bit, and one that was never listed takes none. -/
theorem run_remembers_reset :
    (run resetOperations).contains 0x100 = true ∧ (run resetOperations).isSet 0x500 3 = true ∧
      (run resetOperations).setBit 0x300 0 = .error (.noFrame 0x300) ∧
      run (resetOperations ++ [.setBit 0x300 0]) = run resetOperations := by
  obtain ⟨hcontains, hset, hfails, hkept, -⟩ := run_remembers resetOperations
  have hmissing : (run resetOperations).contains 0x300 = false := by decide +kernel
  have hfault : (run resetOperations).setBit 0x300 0 = .error (.noFrame 0x300) :=
    (hfails _ _ _).2 (.inr ⟨by decide, hmissing, rfl⟩)
  refine ⟨(hcontains 0x100).2 ?_, (hset 0x500 3).2 ?_, hfault, hkept _ _ _ hfault⟩
  · exact ⟨[.ofAddresses [0x100], .setBit 0x100 7], .reset [0x100, 0x500], [.setBit 0x500 3], rfl,
      List.mem_cons_self, by simp [Operation.Rebuilds]⟩
  · exact ⟨[.ofAddresses [0x100], .setBit 0x100 7, .reset [0x100, 0x500]], .setBit 0x500 3, [], rfl,
      ⟨⟨rfl, rfl, by decide, rfl⟩, by decide +kernel⟩, by simp⟩

/-- Frames are listed by their addresses, whatever their sequence was. -/
example : (run [.ofAddresses [0x200, 0x100], .setBit 0x200 0, .setBit 0x100 33]).dataBits =
    [⟨0x100, 1, 1⟩, ⟨0x200, 0, 0⟩] := by decide +kernel

end FrameMemory

end ConfigStream
