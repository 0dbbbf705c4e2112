import ConfigStream.Checksum.Syndrome
import ConfigStream.Text.Numeral

/-!
# Frames

A frame is its 93 words. `withSyndrome` replaces the reserved region by the syndrome of the data
bits, which a reader of the frame can then compute again and compare.
-/

namespace ConfigStream

/-- A configuration frame. -/
structure Frame where
  words : Vector UInt32 Frame.wordCount
deriving DecidableEq

namespace Frame

/-- The frame without a set bit. -/
def empty : Frame := ⟨Vector.replicate wordCount 0⟩

instance : Inhabited Frame := ⟨empty⟩

/-- A bit of a frame; outside the frame every bit is clear. -/
def get (frame : Frame) (index : Nat) : Bool :=
  match frame.words[index / Word.width]? with
  | some word => Word.testBit word (index % Word.width)
  | none => false

/-- The word in which a bit of a frame lies. -/
def wordOf (index : Fin bitCount) : Fin wordCount :=
  ⟨index / Word.width, Nat.div_lt_of_lt_mul (Nat.mul_comm .. ▸ index.isLt)⟩

/-- The frame with one bit given a value. -/
def set (frame : Frame) (index : Fin bitCount) (value : Bool) : Frame :=
  let word := wordOf index
  ⟨frame.words.set word (Word.withBit frame.words[word] (index % Word.width) value)⟩

/-- Whether no bit is set. -/
def isEmpty (frame : Frame) : Bool :=
  frame.words.toList.all (· == 0)

/-- The set data bits as (word, bit), ascending. -/
def dataBits (frame : Frame) : List (Nat × Nat) :=
  frame.words.toList.zipIdx.flatMap fun (value, word) =>
    (dataBitsOf word value).map fun bit => (word, bit)

/-- The number of set bits, the reserved region included. -/
def setCount (frame : Frame) : Nat :=
  frame.words.toList.foldl (fun count word => count + (Word.setBits word).length) 0

/-- The 48 bits of the reserved region. -/
def storedSyndrome (frame : Frame) : UInt64 :=
  frame.words.toList.zipIdx.foldl (fun field (value, word) => field ||| storedPart word value) 0

/-- The syndrome of the data bits. -/
def syndrome (frame : Frame) : UInt64 :=
  Syndrome.ofWords frame.words.toList

/-- The frame with its reserved region replaced by the low 48 bits of a value. -/
def withStored (frame : Frame) (field : UInt64) : Frame :=
  ⟨frame.words.mapIdx fun word value => putStoredPart field word value⟩

/-- The frame with the syndrome of its data bits in the reserved region, and that syndrome. -/
def withSyndrome (frame : Frame) : Frame × UInt64 :=
  let cleared := frame.withStored 0
  (cleared.withStored cleared.syndrome, cleared.syndrome)

/-- A frame in one line: how many bits are set, and what its reserved region holds. -/
def summary (frame : Frame) : String :=
  "Frame \x7b set_bits: " ++ toString frame.setCount ++ ", ecc: 0x" ++
    Text.hex 12 frame.storedSyndrome.toNat ++ " \x7d"

/-! ## Single bits -/

@[simp]
theorem get_empty (index : Nat) : empty.get index = false := by
  unfold get
  split <;> rename_i h
  · rw [empty, Vector.getElem?_replicate] at h
    split at h
    · cases h
      exact Nat.zero_testBit _
    · cases h
  · rfl

/-- The words of a frame in which a bit was given a value. -/
theorem getElem?_words_set (frame : Frame) (index : Fin bitCount) (value : Bool) (word : Nat) :
    (frame.set index value).words[word]? =
      if index / Word.width = word then
        some (Word.withBit frame.words[wordOf index] (index % Word.width) value)
      else frame.words[word]? :=
  Vector.getElem?_set (wordOf index).isLt

/-- Giving a bit a value changes no other bit. -/
theorem get_set (frame : Frame) (index : Fin bitCount) (value : Bool) (other : Nat) :
    (frame.set index value).get other = if other = index then value else frame.get other := by
  unfold get
  rw [getElem?_words_set]
  by_cases hword : index.val / Word.width = other / Word.width
  · have hget : frame.words[other / Word.width]? = some frame.words[wordOf index] := by
      rw [← hword]
      exact Vector.getElem?_eq_getElem (wordOf index).isLt
    rw [if_pos hword, hget]
    show Word.testBit (Word.withBit _ _ _) _ = _
    rw [Word.testBit_withBit _ (Nat.mod_lt _ (by decide))]
    by_cases heq : other = index
    · rw [heq, if_pos rfl, if_pos rfl]
    · rw [if_neg heq, if_neg]
      intro hmod
      exact heq (by rw [← Nat.div_add_mod other Word.width, ← hword, hmod, Nat.div_add_mod])
  · rw [if_neg hword, if_neg]
    intro heq
    exact hword (by rw [heq])

end Frame

end ConfigStream
