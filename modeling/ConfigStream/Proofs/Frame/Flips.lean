import ConfigStream.Proofs.Frame.Completion
import Mathlib.Data.Finset.Card
import Mathlib.Data.Finset.Dedup
import Mathlib.Data.List.FinRange

/-!
# Frames with flipped bits

Bits of a completed frame may flip, data bits and bits of the reserved region alike
(`Frame.flip`). The residue of a frame is the exclusive or of the columns of its set bits
(`Frame.residue_eq_bits`), so flipped bits add their own columns and nothing else counts
(`Frame.residue_flip`). An odd number of flipped bits and two flipped bits are noticed, and a single
flipped bit is told by the residue it leaves (`Frame.flip_noticed`).
-/

namespace ConfigStream.Frame

/-! ## The columns of all bits -/

/-- What a bit of a frame toggles in the residue. -/
def columnAt (index : Fin bitCount) : UInt64 :=
  column (index / Word.width) (index % Word.width)

variable {index other : Fin bitCount}

theorem word_lt (index : Fin bitCount) : index / Word.width < wordCount := (wordOf index).isLt

theorem bit_lt (index : Fin bitCount) : index % Word.width < Word.width :=
  Nat.mod_lt _ (by decide)

theorem odd_ones_columnAt (index : Fin bitCount) : ones (columnAt index) % 2 = 1 :=
  odd_ones_column (word_lt index) (bit_lt index)

/-- The word of a bit and its place there tell the bit. -/
theorem place_injective (hword : index / Word.width = other / Word.width)
    (hbit : index % Word.width = other % Word.width) : index = other := by
  apply Fin.ext
  rw [← Nat.div_add_mod index Word.width, hword, hbit, Nat.div_add_mod]

theorem columnAt_injective : Function.Injective columnAt := by
  intro index other hsame
  obtain ⟨hword, hbit⟩ :=
    column_injective (word_lt index) (bit_lt index) (word_lt other) (bit_lt other) hsame
  exact place_injective hword hbit

/-- The set bits of a frame, found by going through all bits. -/
def setIndices (frame : Frame) : List (Fin bitCount) :=
  (List.finRange bitCount).filter fun index : Fin bitCount => frame.get index

theorem mem_setIndices {frame : Frame} : index ∈ frame.setIndices ↔ frame.get index = true := by
  rw [setIndices, List.mem_filter]
  exact and_iff_right (List.mem_finRange index)

theorem nodup_setIndices (frame : Frame) : frame.setIndices.Nodup :=
  (List.nodup_finRange bitCount).filter _

/-- They are those found by going through the words. -/
theorem setIndices_perm (frame : Frame) :
    (frame.setIndices.map fun index : Fin bitCount =>
      (index / Word.width, index % Word.width)).Perm frame.setPlaces := by
  have hplaces : frame.setPlaces.Nodup := by
    refine frame.setPlaces_pairwise.imp fun {first second} hprecedes hsame => ?_
    rw [hsame] at hprecedes
    omega
  have hindices := frame.nodup_setIndices.map
    (f := fun index : Fin bitCount => (index / Word.width, index % Word.width))
    fun index other hsame => place_injective (congrArg Prod.fst hsame) (congrArg Prod.snd hsame)
  apply (List.perm_ext_iff_of_nodup hindices hplaces).2
  rintro ⟨word, bit⟩
  rw [mem_setPlaces, List.mem_map]
  constructor
  · rintro ⟨index, hindex, hpair⟩
    obtain ⟨rfl, rfl⟩ := Prod.mk.inj hpair
    refine ⟨word_lt index, bit_lt index, ?_⟩
    rw [Nat.mul_comm, Nat.div_add_mod]
    exact mem_setIndices.1 hindex
  · rintro ⟨hword, hbit, hset⟩
    refine ⟨⟨word * Word.width + bit, index_lt hword hbit⟩, mem_setIndices.2 hset, ?_⟩
    rw [Prod.mk.injEq]
    simp only [Word.width] at hbit ⊢
    omega

/-- The residue of a frame is made of the columns of its set bits. -/
theorem residue_eq_bits (frame : Frame) : frame.residue = xorSum columnAt frame.setIndices := by
  have hplaces : frame.residue =
      xorSum (fun place => column place.1 place.2) frame.setPlaces := by
    rw [residue_eq, setPlaces, xorSum_flatMap]
    simp only [xorSum_map, residueOf_eq]
  rw [hplaces, ← xorSum_perm _ frame.setIndices_perm, xorSum_map]
  rfl

/-! ## Flipping bits -/

/-- The frame with the bits of a set flipped. -/
def flip (frame : Frame) (flipped : Finset (Fin bitCount)) : Frame :=
  (List.finRange bitCount).foldl
    (fun changed index => changed.set index (frame.get index ^^ decide (index ∈ flipped))) frame

/-- Bits that are given values one after the other have these values. -/
theorem get_foldl_set (value : Fin bitCount → Bool) (indices : List (Fin bitCount))
    (frame : Frame) (index : Fin bitCount) :
    (indices.foldl (fun changed other => changed.set other (value other)) frame).get index =
      if index ∈ indices then value index else frame.get index := by
  induction indices generalizing frame with
  | nil => simp
  | cons first indices ih =>
      rw [List.foldl_cons, ih, get_set]
      by_cases hfirst : index = first
      · simp [hfirst]
      · simp [hfirst, Fin.val_ne_of_ne hfirst]

/-- Exactly the bits of the set are flipped. -/
theorem get_flip (frame : Frame) (flipped : Finset (Fin bitCount)) (index : Fin bitCount) :
    (frame.flip flipped).get index = (frame.get index ^^ decide (index ∈ flipped)) := by
  rw [flip, get_foldl_set fun index => frame.get index ^^ decide (index ∈ flipped),
    if_pos (List.mem_finRange index)]

/-- Flipped bits add their columns to the residue. -/
theorem residue_flip (frame : Frame) (flipped : Finset (Fin bitCount)) :
    (frame.flip flipped).residue = frame.residue ^^^ xorSum columnAt flipped.toList := by
  have hflipped : ((List.finRange bitCount).filter fun index => decide (index ∈ flipped)).Perm
      flipped.toList := by
    refine (List.perm_ext_iff_of_nodup ((List.nodup_finRange bitCount).filter _)
      flipped.nodup_toList).2 fun index => ?_
    simp
  rw [residue_eq_bits, residue_eq_bits, ← xorSum_perm _ hflipped, setIndices, setIndices,
    ← xorSum_filter_xor]
  simp only [get_flip]

/-- A completed frame has no residue, so that after bits have flipped it is theirs alone. -/
theorem residue_flip_withSyndrome (frame : Frame) (flipped : Finset (Fin bitCount)) :
    (frame.withSyndrome.1.flip flipped).residue = xorSum columnAt flipped.toList := by
  have hsound : frame.withSyndrome.1.residue = 0 := by
    rw [residue_eq_zero_iff, storedSyndrome_withSyndrome, syndrome_withSyndrome]
  rw [residue_flip, hsound, UInt64.zero_xor]

/-- Any of the 2976 bits of a completed frame flip, data bits and bits of the reserved region alike.
The check of the frame fails if they are odd in number or two. What the reserved region and the
syndrome then differ by depends on the flipped bits alone, and a single flipped bit is known from
it, whatever the frame was. -/
theorem flip_noticed (frame : Frame) :
    let sound := frame.withSyndrome.1
    (∀ (flipped : Finset (Fin bitCount)) (index : Fin bitCount),
      (sound.flip flipped).get index = (sound.get index ^^ decide (index ∈ flipped))) ∧
    (∀ flipped : Finset (Fin bitCount), flipped.card % 2 = 1 ∨ flipped.card = 2 →
      (sound.flip flipped).storedSyndrome ≠ (sound.flip flipped).syndrome) ∧
    (∀ (other : Frame) (flipped : Finset (Fin bitCount)),
      (sound.flip flipped).storedSyndrome ^^^ (sound.flip flipped).syndrome =
        (other.withSyndrome.1.flip flipped).storedSyndrome ^^^
          (other.withSyndrome.1.flip flipped).syndrome) ∧
    ∀ (other : Frame) (first second : Fin bitCount),
      (sound.flip {first}).storedSyndrome ^^^ (sound.flip {first}).syndrome =
        (other.withSyndrome.1.flip {second}).storedSyndrome ^^^
          (other.withSyndrome.1.flip {second}).syndrome → first = second := by
  intro sound
  refine ⟨sound.get_flip, fun flipped hflipped => ?_, fun other flipped => ?_,
    fun other first second hsame => ?_⟩
  · rw [Ne, ← residue_eq_zero_iff, residue_flip_withSyndrome]
    refine xorSum_ne_zero (fun index _ => odd_ones_columnAt index)
      (fun index _ other _ hsame => columnAt_injective hsame) flipped.nodup_toList ?_
    rwa [Finset.length_toList]
  · exact (residue_flip_withSyndrome frame flipped).trans
      (residue_flip_withSyndrome other flipped).symm
  · have hcolumns : xorSum columnAt ({first} : Finset (Fin bitCount)).toList =
        xorSum columnAt ({second} : Finset (Fin bitCount)).toList :=
      (residue_flip_withSyndrome frame {first}).symm.trans
        (hsame.trans (residue_flip_withSyndrome other {second}))
    rw [Finset.toList_singleton, Finset.toList_singleton, xorSum_cons, xorSum_cons] at hcolumns
    exact columnAt_injective ((UInt64.xor_left_inj _).1 hcolumns)

/-- The only data bit of a frame flips, and with it a bit of the reserved region. -/
theorem flip_noticed_pair :
    let sound := (Frame.empty.set ⟨105, by decide⟩ true).withSyndrome.1
    let flipped : Finset (Fin bitCount) := {⟨105, by decide⟩, ⟨1440, by decide⟩}
    sound.storedSyndrome = 0x20200220020 ∧ flipped.card = 2 ∧
      (sound.flip flipped).get 105 = false ∧
      (sound.flip flipped).storedSyndrome ≠ (sound.flip flipped).syndrome := by
  intro sound flipped
  obtain ⟨hget, hnoticed, -⟩ := flip_noticed (Frame.empty.set ⟨105, by decide⟩ true)
  have hcard : flipped.card = 2 := by decide
  refine ⟨by decide +kernel, hcard, (hget flipped ⟨105, by decide⟩).trans ?_,
    hnoticed flipped (.inr hcard)⟩
  decide +kernel

end ConfigStream.Frame
