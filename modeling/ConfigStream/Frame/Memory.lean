import ConfigStream.Fault
import ConfigStream.Frame.Address
import ConfigStream.Frame.Basic
import Std.Data.ExtTreeMap

/-!
# The frames of a device

A frame memory holds frames by address, in ascending order of the addresses. A frame exists once it
has been listed or created; setting a bit never creates one.
-/

namespace ConfigStream

/-- Frames by address. -/
structure FrameMemory where
  frames : Std.ExtTreeMap UInt32 Frame

namespace FrameMemory

/-- The memory without a frame. -/
def empty : FrameMemory := ⟨∅⟩

instance : Inhabited FrameMemory := ⟨empty⟩

/-- The number of frames. -/
def size (memory : FrameMemory) : Nat := memory.frames.size

/-- Whether there is no frame. -/
def isEmpty (memory : FrameMemory) : Bool := memory.frames.isEmpty

/-- Whether an address has a frame. -/
def contains (memory : FrameMemory) (address : UInt32) : Bool := memory.frames.contains address

/-- The frame at an address. -/
def get? (memory : FrameMemory) (address : UInt32) : Option Frame := memory.frames[address]?

/-- The addresses and their frames, ascending. -/
def toList (memory : FrameMemory) : List (UInt32 × Frame) := memory.frames.toList

/-- The addresses, ascending. -/
def addresses (memory : FrameMemory) : List UInt32 := memory.frames.keys

/-- The least address. -/
def first? (memory : FrameMemory) : Option UInt32 := memory.addresses.head?

/-- The memory with the given frame at an address. -/
def insert (memory : FrameMemory) (address : UInt32) (frame : Frame) : FrameMemory :=
  ⟨memory.frames.insert address frame⟩

/-- The memory with an empty frame at each listed address, whether or not there was one. -/
def reset (memory : FrameMemory) (addresses : List UInt32) : FrameMemory :=
  addresses.foldl (fun memory address => memory.insert address .empty) memory

/-- A memory of empty frames at the listed addresses. -/
def ofAddresses (addresses : List UInt32) : FrameMemory :=
  empty.reset addresses

/-- The memory with an empty frame at an address that had none. -/
def ensure (memory : FrameMemory) (address : UInt32) : FrameMemory :=
  if memory.contains address then memory else memory.insert address .empty

/-- The memory with one bit given a value in a frame that exists. -/
def assign (memory : FrameMemory) (address : UInt32) (bit : Fin Frame.bitCount) (value : Bool) :
    FrameMemory :=
  match memory.get? address with
  | some frame => memory.insert address (frame.set bit value)
  | none => memory

/-- Set one bit of an existing frame. -/
def setBit (memory : FrameMemory) (address : UInt32) (bit : Nat) : Except Fault FrameMemory :=
  if inFrame : bit < Frame.bitCount then
    if memory.contains address then .ok (memory.assign address ⟨bit, inFrame⟩ true)
    else .error (.noFrame address)
  else .error (.outsideFrame address bit)

/-- The set data bits in ascending order. -/
def dataBits (memory : FrameMemory) : List BitAddress :=
  memory.toList.flatMap fun (address, frame) =>
    frame.dataBits.map fun (word, bit) => ⟨address, word, bit⟩

/-- The memory with one more bit set, its frame created if there was none. A bit outside the frame
changes nothing. -/
def mark (memory : FrameMemory) (address : BitAddress) : FrameMemory :=
  if inFrame : address.index < Frame.bitCount then
    (memory.ensure address.frame).assign address.frame ⟨address.index, inFrame⟩ true
  else memory

/-- The least memory with the given bits set. -/
def ofBits (bits : List BitAddress) : FrameMemory :=
  bits.foldl mark empty

/-! ## The frame at an address -/

@[simp]
theorem contains_eq (memory : FrameMemory) (address : UInt32) :
    memory.contains address = (memory.get? address).isSome := by
  simp [contains, get?]

@[simp]
theorem get?_empty (address : UInt32) : empty.get? address = none := by
  simp [get?, empty]

@[simp]
theorem get?_insert (memory : FrameMemory) (address other : UInt32) (frame : Frame) :
    (memory.insert address frame).get? other =
      if other = address then some frame else memory.get? other := by
  simp only [get?, insert, Std.ExtTreeMap.getElem?_insert, Std.compare_eq_iff_eq,
    eq_comm (a := address)]

@[simp]
theorem get?_ensure (memory : FrameMemory) (address other : UInt32) :
    (memory.ensure address).get? other =
      if other = address then some ((memory.get? address).getD .empty)
      else memory.get? other := by
  unfold ensure
  by_cases heq : other = address
  · subst heq
    cases h : memory.get? other <;> simp [h]
  · cases h : memory.get? address <;> simp [h, heq]

@[simp]
theorem get?_assign (memory : FrameMemory) (address other : UInt32) (bit : Fin Frame.bitCount)
    (value : Bool) :
    (memory.assign address bit value).get? other =
      if other = address then (memory.get? address).map (·.set bit value)
      else memory.get? other := by
  unfold assign
  split <;> rename_i h
  · by_cases heq : other = address <;> simp [heq, h]
  · by_cases heq : other = address <;> simp [heq, h]

end FrameMemory

end ConfigStream
