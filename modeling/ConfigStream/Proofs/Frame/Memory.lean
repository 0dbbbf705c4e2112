import ConfigStream.Frame.Memory
import ConfigStream.Proofs.Frame.Bits

/-!
# Frame memories bit by bit

A memory is its addresses and its set bits (`FrameMemory.ext_isSet`), and what changes a memory is
described by what it does to both. A memory made of bits has the frames of these bits and no other
set bit (`FrameMemory.contains_ofBits`, `FrameMemory.isSet_ofBits`). Made of the data bits of a
memory, it is the memory restricted to its frames with data (`FrameMemory.ofBits_dataBits`).
-/

namespace ConfigStream

namespace BitAddress

/-- The address is one of a bit in a frame. -/
def InFrame (address : BitAddress) : Prop :=
  address.word < Frame.wordCount ∧ address.bit < Word.width

theorem InFrame.index_lt {address : BitAddress} (h : address.InFrame) :
    address.index < Frame.bitCount := Frame.index_lt h.1 h.2

/-- A bit in a frame is found by its frame and its index. -/
theorem InFrame.index_inj {first second : BitAddress} (hfirst : first.InFrame)
    (hsecond : second.InFrame) (h : first.index = second.index) :
    first.word = second.word ∧ first.bit = second.bit := by
  have hleft := hfirst.2
  have hright := hsecond.2
  simp only [index, Word.width] at h hleft hright
  omega

/-- The order of bit addresses: by frame, then by word, then by bit. -/
def Precedes (first second : BitAddress) : Prop :=
  first.frame < second.frame ∨ (first.frame = second.frame ∧
    (first.word < second.word ∨ (first.word = second.word ∧ first.bit < second.bit)))

end BitAddress

namespace FrameMemory

/-- The addresses of the frames of a memory, in their order. -/
theorem map_fst_toList (memory : FrameMemory) :
    memory.toList.map Prod.fst = memory.addresses :=
  Std.ExtTreeMap.map_fst_toList_eq_keys

theorem length_toList (memory : FrameMemory) : memory.toList.length = memory.size :=
  Std.ExtTreeMap.length_toList

/-- The addresses of a memory are ascending. -/
theorem addresses_pairwise (memory : FrameMemory) : memory.addresses.Pairwise (· < ·) :=
  Std.ExtTreeMap.ordered_keys.imp Std.compare_eq_lt.1

theorem mem_addresses {memory : FrameMemory} {address : UInt32} :
    address ∈ memory.addresses ↔ memory.contains address = true := by
  rw [addresses, Std.ExtTreeMap.mem_keys]
  exact Std.ExtTreeMap.mem_iff_contains

/-- A memory has no least address if and only if it has no frame. -/
theorem first?_eq_none (memory : FrameMemory) :
    memory.first? = none ↔ memory.isEmpty = true := by
  rw [first?, List.head?_eq_none_iff, addresses, isEmpty, ← List.isEmpty_iff,
    Std.ExtTreeMap.isEmpty_keys]

theorem exists_first? {memory : FrameMemory} (h : memory.isEmpty = false) :
    ∃ first, memory.first? = some first := by
  cases hfirst : memory.first? with
  | none =>
      rw [memory.first?_eq_none.1 hfirst] at h
      cases h
  | some first => exact ⟨first, rfl⟩

/-- Whether a bit is set in the frame at an address. -/
def isSet (memory : FrameMemory) (address : UInt32) (index : Nat) : Bool :=
  (memory.get? address).any (·.get index)

/-- A memory without the frames that have no data bit, and with the reserved region of the others
cleared. -/
def dataFrames (memory : FrameMemory) : FrameMemory :=
  ⟨memory.frames.filterMap fun _ frame =>
    if frame.dataBits.isEmpty then none else some (frame.withStored 0)⟩

/-- A memory is its addresses and its set bits. -/
theorem ext_isSet {first second : FrameMemory}
    (hcontains : ∀ address, first.contains address = second.contains address)
    (hset : ∀ address, ∀ index < Frame.bitCount,
      first.isSet address index = second.isSet address index) :
    first = second := by
  obtain ⟨first⟩ := first
  obtain ⟨second⟩ := second
  congr 1
  apply Std.ExtTreeMap.ext_getElem?
  intro address
  have hexists := hcontains address
  have hbits := hset address
  simp only [contains_eq, isSet, get?] at hexists hbits
  cases hleft : first[address]? with
  | none =>
      rw [hleft] at hexists
      exact (Option.isSome_eq_false_iff.1 hexists.symm |> Option.isNone_iff_eq_none.1).symm
  | some left =>
      rw [hleft] at hexists hbits
      obtain ⟨right, hright⟩ := Option.isSome_iff_exists.1 hexists.symm
      rw [hright] at hbits ⊢
      exact congrArg some (Frame.ext_get hbits)

/-! ## Frames created and bits written -/

theorem contains_ensure (memory : FrameMemory) (address other : UInt32) :
    (memory.ensure address).contains other = (memory.contains other || other == address) := by
  simp only [contains_eq, get?_ensure]
  by_cases heq : other = address <;> simp [heq]

/-- A frame that is created has no set bit. -/
theorem isSet_ensure (memory : FrameMemory) (address other : UInt32) (index : Nat) :
    (memory.ensure address).isSet other index = memory.isSet other index := by
  simp only [isSet, get?_ensure]
  by_cases heq : other = address
  · subst heq
    cases memory.get? other <;> simp
  · simp [heq]

theorem contains_assign (memory : FrameMemory) (address other : UInt32)
    (bit : Fin Frame.bitCount) (value : Bool) :
    (memory.assign address bit value).contains other = memory.contains other := by
  simp only [contains_eq, get?_assign]
  by_cases heq : other = address <;> simp [heq]

/-- A bit of an existing frame is given a value, and no other bit is. -/
theorem isSet_assign (memory : FrameMemory) (address other : UInt32) (bit : Fin Frame.bitCount)
    (value : Bool) (index : Nat) :
    (memory.assign address bit value).isSet other index =
      if other = address ∧ index = bit then memory.contains address && value
      else memory.isSet other index := by
  simp only [isSet, get?_assign, contains_eq]
  by_cases haddress : other = address
  · subst haddress
    cases memory.get? other with
    | none => simp
    | some frame => simp [Frame.get_set]
  · simp [haddress]

/-- A bit can be set if and only if it is one of an existing frame. -/
theorem setBit_eq_ok {memory next : FrameMemory} {address : UInt32} {bit : Nat} :
    memory.setBit address bit = .ok next ↔ memory.contains address = true ∧
      ∃ hbit : bit < Frame.bitCount, memory.assign address ⟨bit, hbit⟩ true = next := by
  unfold setBit
  by_cases hbit : bit < Frame.bitCount
  · by_cases hframe : memory.contains address = true
    · simp only [hbit, hframe, dif_pos, if_true, Except.ok.injEq, true_and, exists_true_left]
    · simp only [hbit, hframe, dif_pos, Bool.false_eq_true, if_false, reduceCtorEq, false_and]
  · simp only [hbit, dif_neg, reduceCtorEq, not_false_eq_true, exists_prop_of_false, and_false]

/-- Setting a bit fails outside a frame, or where there is none. -/
theorem setBit_eq_error {memory : FrameMemory} {address : UInt32} {bit : Nat} {fault : Fault} :
    memory.setBit address bit = .error fault ↔
      (Frame.bitCount ≤ bit ∧ fault = .outsideFrame address bit) ∨
      (bit < Frame.bitCount ∧ memory.contains address = false ∧ fault = .noFrame address) := by
  rw [setBit, @eq_comm _ fault, @eq_comm _ fault]
  by_cases hbit : bit < Frame.bitCount
  · have hinside : ¬ Frame.bitCount ≤ bit := Nat.not_le_of_lt hbit
    cases memory.contains address <;> simp [hbit, hinside]
  · simp [hbit, Nat.le_of_not_lt hbit]

theorem contains_setBit {memory next : FrameMemory} {address : UInt32} {bit : Nat}
    (h : memory.setBit address bit = .ok next) (other : UInt32) :
    next.contains other = memory.contains other := by
  obtain ⟨-, hbit, rfl⟩ := setBit_eq_ok.1 h
  exact contains_assign ..

theorem isSet_setBit {memory next : FrameMemory} {address : UInt32} {bit : Nat}
    (h : memory.setBit address bit = .ok next) (other : UInt32) (index : Nat) :
    next.isSet other index =
      (memory.isSet other index || (other == address && index == bit)) := by
  obtain ⟨hframe, hbit, rfl⟩ := setBit_eq_ok.1 h
  rw [isSet_assign, hframe]
  by_cases hplace : other = address ∧ index = bit
  · simp [hplace]
  · rw [if_neg hplace]
    simp [hplace]

theorem get?_reset (memory : FrameMemory) (addresses : List UInt32) (other : UInt32) :
    (memory.reset addresses).get? other =
      if other ∈ addresses then some .empty else memory.get? other := by
  induction addresses generalizing memory with
  | nil => rfl
  | cons address addresses ih =>
      show ((memory.insert address .empty).reset addresses).get? other = _
      rw [ih, get?_insert]
      by_cases heq : other = address <;> simp [heq]

/-- A memory with empty frames at further addresses has these and its own. -/
theorem contains_reset (memory : FrameMemory) (addresses : List UInt32) (other : UInt32) :
    (memory.reset addresses).contains other =
      (memory.contains other || addresses.contains other) := by
  rw [contains_eq, contains_eq, get?_reset, Bool.eq_iff_iff]
  by_cases hmem : other ∈ addresses <;> simp [hmem]

theorem contains_ofAddresses (addresses : List UInt32) (other : UInt32) :
    (ofAddresses addresses).contains other = addresses.contains other := by
  rw [ofAddresses, contains_reset]
  simp

/-- Where frames are made empty, no bit is set. -/
theorem isSet_reset (memory : FrameMemory) (addresses : List UInt32) (other : UInt32)
    (index : Nat) :
    (memory.reset addresses).isSet other index =
      (memory.isSet other index && !addresses.contains other) := by
  rw [isSet, isSet, get?_reset, Bool.eq_iff_iff]
  by_cases hmem : other ∈ addresses <;> simp [hmem]

theorem isSet_ofAddresses (addresses : List UInt32) (other : UInt32) (index : Nat) :
    (ofAddresses addresses).isSet other index = false := by
  rw [ofAddresses, isSet_reset]
  simp [isSet]

/-! ## Memories made of bits -/

theorem contains_mark (memory : FrameMemory) {bit : BitAddress} (h : bit.InFrame)
    (address : UInt32) :
    (memory.mark bit).contains address = (memory.contains address || address == bit.frame) := by
  rw [mark, dif_pos h.index_lt, contains_assign, contains_ensure]

theorem isSet_mark (memory : FrameMemory) {bit : BitAddress} (h : bit.InFrame)
    (address : UInt32) (index : Nat) :
    (memory.mark bit).isSet address index =
      (memory.isSet address index || (address == bit.frame && index == bit.index)) := by
  rw [mark, dif_pos h.index_lt, isSet_assign, isSet_ensure, contains_ensure]
  by_cases hplace : address = bit.frame ∧ index = bit.index
  · simp [hplace]
  · rw [if_neg hplace]
    simp [hplace]

/-- A memory with further bits has the addresses of both. -/
theorem contains_foldl_mark (memory : FrameMemory) {bits : List BitAddress}
    (h : ∀ bit ∈ bits, bit.InFrame) (address : UInt32) :
    (bits.foldl mark memory).contains address =
      (memory.contains address || bits.any (address == ·.frame)) := by
  induction bits generalizing memory with
  | nil => simp
  | cons bit bits ih =>
      rw [List.foldl_cons, ih _ fun other hother => h other (List.mem_cons_of_mem _ hother),
        contains_mark memory (h bit List.mem_cons_self), List.any_cons, Bool.or_assoc]

/-- A memory with further bits has the set bits of both. -/
theorem isSet_foldl_mark (memory : FrameMemory) {bits : List BitAddress}
    (h : ∀ bit ∈ bits, bit.InFrame) (address : UInt32) (index : Nat) :
    (bits.foldl mark memory).isSet address index =
      (memory.isSet address index ||
        bits.any fun bit => address == bit.frame && index == bit.index) := by
  induction bits generalizing memory with
  | nil => simp
  | cons bit bits ih =>
      rw [List.foldl_cons, ih _ fun other hother => h other (List.mem_cons_of_mem _ hother),
        isSet_mark memory (h bit List.mem_cons_self), List.any_cons, Bool.or_assoc]

/-- A memory made of bits has their addresses. -/
theorem contains_ofBits {bits : List BitAddress} (h : ∀ bit ∈ bits, bit.InFrame)
    (address : UInt32) :
    (ofBits bits).contains address = true ↔ ∃ bit ∈ bits, address = bit.frame := by
  rw [ofBits, contains_foldl_mark empty h]
  simp

/-- A memory made of bits has no other bit set. -/
theorem isSet_ofBits {bits : List BitAddress} (h : ∀ bit ∈ bits, bit.InFrame)
    (address : UInt32) (index : Nat) :
    (ofBits bits).isSet address index = true ↔
      ∃ bit ∈ bits, address = bit.frame ∧ index = bit.index := by
  rw [ofBits, isSet_foldl_mark empty h]
  simp [isSet]

/-- A memory made of bits has, at a bit of a word, what the bits say. -/
theorem isSet_ofBits_place {bits : List BitAddress} (h : ∀ bit ∈ bits, bit.InFrame)
    {address : UInt32} {word bit : Nat} (hbit : bit < Word.width) :
    (ofBits bits).isSet address (word * Word.width + bit) = true ↔ ⟨address, word, bit⟩ ∈ bits := by
  rw [isSet_ofBits h]
  constructor
  · rintro ⟨⟨_, other, place⟩, hmem, rfl, hindex⟩
    have hplace := (h _ hmem).2
    obtain ⟨rfl, rfl⟩ : word = other ∧ bit = place := by
      simp only [BitAddress.index, Word.width] at hindex hbit hplace
      omega
    exact hmem
  · exact fun hmem => ⟨_, hmem, rfl, rfl⟩

/-- A memory made of bits has no empty frame. -/
theorem isEmpty_of_get?_ofBits {bits : List BitAddress} (h : ∀ bit ∈ bits, bit.InFrame)
    {address : UInt32} {frame : Frame} (hframe : (ofBits bits).get? address = some frame) :
    frame.isEmpty = false := by
  have hcontains : (ofBits bits).contains address = true := by
    rw [contains_eq, hframe, Option.isSome_some]
  obtain ⟨bit, hbit, rfl⟩ := (contains_ofBits h address).1 hcontains
  have hset : (ofBits bits).isSet bit.frame bit.index = true :=
    (isSet_ofBits h _ _).2 ⟨bit, hbit, rfl, rfl⟩
  rw [isSet, hframe, Option.any_some] at hset
  exact Frame.isEmpty_of_get hset

/-! ## Data bits -/

theorem get?_dataFrames (memory : FrameMemory) (address : UInt32) :
    memory.dataFrames.get? address = (memory.get? address).bind fun frame =>
      if frame.dataBits = [] then none else some (frame.withStored 0) := by
  simp [dataFrames, get?]

/-- The data bits of a memory are those of its frames. -/
theorem mem_dataBits {memory : FrameMemory} {address : BitAddress} :
    address ∈ memory.dataBits ↔ ∃ frame, memory.get? address.frame = some frame ∧
      (address.word, address.bit) ∈ frame.dataBits := by
  constructor
  · intro h
    obtain ⟨⟨place, frame⟩, hentry, hbit⟩ := List.mem_flatMap.1 h
    obtain ⟨⟨word, bit⟩, hdata, rfl⟩ := List.mem_map.1 hbit
    exact ⟨frame, Std.ExtTreeMap.mem_toList_iff_getElem?_eq_some.1 hentry, hdata⟩
  · rintro ⟨frame, hframe, hbit⟩
    refine List.mem_flatMap.2 ⟨(address.frame, frame), ?_, List.mem_map.2 ⟨_, hbit, rfl⟩⟩
    exact Std.ExtTreeMap.mem_toList_iff_getElem?_eq_some.2 hframe

/-- A data bit is a set bit outside the reserved region. -/
theorem mem_dataBits_iff_isSet {memory : FrameMemory} {address : UInt32} {word bit : Nat} :
    ⟨address, word, bit⟩ ∈ memory.dataBits ↔ word < Frame.wordCount ∧ bit < Word.width ∧
      Frame.isReserved word bit = false ∧
        memory.isSet address (word * Word.width + bit) = true := by
  rw [mem_dataBits, isSet, Option.any_eq_true]
  constructor
  · rintro ⟨frame, hframe, hdata⟩
    obtain ⟨hword, hbit, hreserved, hset⟩ := Frame.mem_dataBits.1 hdata
    exact ⟨hword, hbit, hreserved, frame, hframe, hset⟩
  · rintro ⟨hword, hbit, hreserved, frame, hframe, hset⟩
    exact ⟨frame, hframe, Frame.mem_dataBits.2 ⟨hword, hbit, hreserved, hset⟩⟩

theorem inFrame_of_mem_dataBits {memory : FrameMemory} {address : BitAddress}
    (h : address ∈ memory.dataBits) : address.InFrame := by
  obtain ⟨frame, -, hbit⟩ := mem_dataBits.1 h
  obtain ⟨hword, hbit, -⟩ := Frame.mem_dataBits.1 hbit
  exact ⟨hword, hbit⟩

/-- The data bits of a memory are ascending. -/
theorem dataBits_pairwise (memory : FrameMemory) :
    memory.dataBits.Pairwise BitAddress.Precedes := by
  have hframes : memory.toList.Pairwise (·.1 < ·.1) := by
    rw [← List.pairwise_map, map_fst_toList]
    exact memory.addresses_pairwise
  refine List.pairwise_flatMap.2 ⟨fun entry _ => ?_, hframes.imp fun {first second} hlt => ?_⟩
  · refine List.pairwise_map.2 (entry.2.dataBits_pairwise.imp fun hprecedes => ?_)
    exact .inr ⟨rfl, hprecedes⟩
  · intro bit hbit other hother
    obtain ⟨place, -, rfl⟩ := List.mem_map.1 hbit
    obtain ⟨place, -, rfl⟩ := List.mem_map.1 hother
    exact .inl hlt

/-- A bit with an index in a frame is a bit of one of its words. -/
theorem exists_place {index : Nat} (h : index < Frame.bitCount) :
    ∃ word bit, word < Frame.wordCount ∧ bit < Word.width ∧ index = word * Word.width + bit := by
  refine ⟨index / Word.width, index % Word.width, ?_, Nat.mod_lt _ (by decide), ?_⟩
  · exact Nat.div_lt_of_lt_mul (Nat.mul_comm .. ▸ h)
  · rw [Nat.mul_comm, Nat.div_add_mod]

/-- The frames with data are those of the data bits. -/
theorem contains_dataFrames (memory : FrameMemory) (address : UInt32) :
    memory.dataFrames.contains address = true ↔ ∃ bit ∈ memory.dataBits, address = bit.frame := by
  rw [contains_eq, get?_dataFrames]
  constructor
  · intro hsome
    cases hframe : memory.get? address with
    | none => simp [hframe] at hsome
    | some frame =>
        cases hdata : frame.dataBits with
        | nil => simp [hframe, hdata] at hsome
        | cons place places =>
            have hmem : place ∈ frame.dataBits := by rw [hdata]; exact List.mem_cons_self
            exact ⟨⟨address, place.1, place.2⟩, mem_dataBits.2 ⟨frame, hframe, hmem⟩, rfl⟩
  · rintro ⟨bit, hbit, rfl⟩
    obtain ⟨frame, hframe, hdata⟩ := mem_dataBits.1 hbit
    simp [hframe, List.ne_nil_of_mem hdata]

/-- The set bits of the frames with data are the data bits. -/
theorem isSet_dataFrames (memory : FrameMemory) (address : UInt32) {index : Nat}
    (hindex : index < Frame.bitCount) :
    memory.dataFrames.isSet address index = true ↔
      ∃ bit ∈ memory.dataBits, address = bit.frame ∧ index = bit.index := by
  obtain ⟨word, bit, hword, hbit, rfl⟩ := exists_place hindex
  rw [isSet, get?_dataFrames]
  constructor
  · intro hset
    cases hframe : memory.get? address with
    | none => simp [hframe] at hset
    | some frame =>
        by_cases hempty : frame.dataBits = []
        · simp [hframe, hempty] at hset
        · simp only [hframe, hempty, Option.bind_some, if_false, Option.any_some,
            Frame.get_withStored_zero frame hword hbit, Bool.and_eq_true,
            Bool.not_eq_true'] at hset
          have hdata := Frame.mem_dataBits.2 ⟨hword, hbit, hset.2, hset.1⟩
          exact ⟨⟨address, word, bit⟩, mem_dataBits.2 ⟨frame, hframe, hdata⟩, rfl, rfl⟩
  · rintro ⟨other, hother, rfl, hsame⟩
    obtain ⟨frame, hframe, hdata⟩ := mem_dataBits.1 hother
    obtain ⟨-, -, hreserved, hset⟩ := Frame.mem_dataBits.1 hdata
    -- Two bits of a frame with one index are in one word.
    obtain ⟨hsameWord, hsameBit⟩ : other.word = word ∧ other.bit = bit :=
      BitAddress.InFrame.index_inj (inFrame_of_mem_dataBits hother)
        (show (⟨other.frame, word, bit⟩ : BitAddress).InFrame from ⟨hword, hbit⟩) hsame.symm
    rw [hsameWord, hsameBit] at hreserved hset
    simp [hframe, List.ne_nil_of_mem hdata, Frame.get_withStored_zero frame hword hbit,
      hreserved, hset]

/-- The data bits of a memory make the memory of its frames with data. -/
theorem ofBits_dataBits (memory : FrameMemory) : ofBits memory.dataBits = memory.dataFrames := by
  have hbits : ∀ bit ∈ memory.dataBits, bit.InFrame := fun _ => inFrame_of_mem_dataBits
  apply ext_isSet
  · intro address
    rw [Bool.eq_iff_iff, contains_ofBits hbits, contains_dataFrames]
  · intro address index hindex
    rw [Bool.eq_iff_iff, isSet_ofBits hbits, isSet_dataFrames memory address hindex]

end FrameMemory

end ConfigStream
