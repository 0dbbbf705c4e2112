import Std.Data.ExtTreeMap

/-!
# Frame order

An order says which frame follows which when a device is configured. Bits 18 and up of a frame
address choose its row; where the next frame is in another row, or there is none, a row ends.
-/

namespace ConfigStream

/-- The address written after the last frame. No frame has it. -/
def endOfConfiguration : UInt32 := 0x07FC0000

/-- Which frame address follows which. -/
structure FrameOrder where
  links : Std.ExtTreeMap UInt32 UInt32

namespace FrameOrder

/-- The address bits that two frames of a row have in common. -/
def rowMask : UInt32 := 0xFFFC0000

/-- The order in which nothing follows anything. -/
def empty : FrameOrder := ⟨∅⟩

instance : Inhabited FrameOrder := ⟨empty⟩

/-- Each address is followed by the one after it in the list. For an address that is listed more
than once the last mention counts, unless it ends the list. -/
def ofAddresses (addresses : List UInt32) : FrameOrder :=
  (addresses.zip addresses.tail).foldl
    (fun order link => ⟨order.links.insert link.1 link.2⟩) empty

/-- The address that follows. -/
def next? (order : FrameOrder) (address : UInt32) : Option UInt32 := order.links[address]?

/-- The number of addresses that another follows. -/
def size (order : FrameOrder) : Nat := order.links.size

/-- Whether nothing follows anything. -/
def isEmpty (order : FrameOrder) : Bool := order.links.isEmpty

/-- Whether a row ends with an address: nothing follows it, or what follows is in another row. -/
def isRowEnd (order : FrameOrder) (address : UInt32) : Bool :=
  match order.next? address with
  | some next => (next ^^^ address) &&& rowMask != 0
  | none => true

@[simp]
theorem next?_empty (address : UInt32) : empty.next? address = none := by
  simp [next?, empty]

end FrameOrder

end ConfigStream
