import ConfigStream.Database.Assignment
import ConfigStream.Proofs.Frame.Memory
import ConfigStream.Proofs.Steps

/-!
# The frames of a filled memory

Filling a memory is setting bits one after the other, so that what setting a bit keeps is kept, also
where a harness or feature assignments end with a failure (`FrameMemory.assignHarness_keeps`,
`Design.assignFeatures_keeps`). Setting bits never makes a frame, never removes one and never clears
a bit (`FrameMemory.growsTo_assignHarness`, `Design.growsTo_assignFeatures`), and a harness does not
touch the frames of its region (`FrameMemory.get?_assignHarness`).
-/

namespace ConfigStream

/-! ## Texts as runs over their lines -/

section Counted

variable {σ ε : Type} {run : (σ × Nat) × Option ε} {left : σ} {count : Nat} {fault : ε}

theorem counted_eq_ok :
    (run.1.1, counted run.1.2 run.2) = (left, .ok count) ↔ run = ((left, count), none) := by
  obtain ⟨⟨state, total⟩, failure⟩ := run
  cases failure <;> simp [counted]

theorem counted_eq_error :
    (run.1.1, counted run.1.2 run.2) = (left, .error fault) ↔
      ∃ total, run = ((left, total), some fault) := by
  obtain ⟨⟨state, total⟩, failure⟩ := run
  cases failure <;> simp [counted]

end Counted

theorem FrameMemory.assignHarness_eq (memory : FrameMemory) (text : String) (region : AddressSet) :
    memory.assignHarness text region =
      let run := runSteps (harnessLine region) (memory, 0) (Text.entries text)
      (run.1.1, counted run.1.2 run.2) := rfl

theorem Design.assignFeatures_eq (files : Files) (design : Design) (text : String) :
    design.assignFeatures files text =
      let run := runSteps (featureLine files) (design, 0) (Text.entries text)
      (run.1.1, counted run.1.2 run.2) := rfl

/-! ## What setting a bit keeps -/

/-- What setting a bit of a frame at one of the given addresses keeps. -/
def FrameMemory.KeptBySetting (allowed : UInt32 → Prop) (motive : FrameMemory → Prop) : Prop :=
  ∀ ⦃memory next : FrameMemory⦄ ⦃address : UInt32⦄ ⦃bit : Nat⦄, allowed address →
    memory.setBit address bit = .ok next → motive memory → motive next

variable {motive : FrameMemory → Prop}

namespace FrameMemory

variable {memory : FrameMemory}

theorem assignTileBits_keeps (hkept : KeptBySetting (fun _ => True) motive) (h : motive memory)
    (tile : Tile) (bits : List Nat) : motive (memory.assignTileBits tile bits).1 := by
  refine runSteps_keeps ?_ h bits
  intro filled bit hfilled
  unfold assignTileBit
  cases tile.locate? bit with
  | none => exact hfilled
  | some place =>
      cases hset : filled.setBit place.1 place.2 with
      | error fault =>
          simp only [hset]
          exact hfilled
      | ok next =>
          simp only [hset]
          exact hkept trivial hset hfilled

/-- What setting a bit outside the region keeps, a harness keeps. -/
theorem assignHarness_keeps {region : AddressSet} (hkept : KeptBySetting (· ∉ region) motive)
    (h : motive memory) (text : String) : motive (memory.assignHarness text region).1 := by
  refine runSteps_keeps (motive := fun work : FrameMemory × Nat => motive work.1) ?_ h
    (Text.entries text)
  intro work line hwork
  unfold harnessLine
  cases BitAddress.parse line.text with
  | error fault => exact hwork
  | ok address =>
      by_cases hregion : region.contains address.frame = true
      · simp only [hregion, if_true]
        exact hwork
      · simp only [hregion, Bool.false_eq_true, if_false]
        cases hset : work.1.setBit address.frame address.index with
        | error fault => exact hwork
        | ok next => exact hkept hregion hset hwork

end FrameMemory

/-- What setting a bit keeps, feature assignments keep. -/
theorem Design.assignFeatures_keeps {design : Design}
    (hkept : FrameMemory.KeptBySetting (fun _ => True) motive) (h : motive design.memory)
    (files : Files) (text : String) : motive (design.assignFeatures files text).1.memory := by
  refine runSteps_keeps (motive := fun work : Design × Nat => motive work.1.memory) ?_ h
    (Text.entries text)
  intro work line hwork
  -- The look-up may have read a bit table, which leaves the memory.
  have hfeature (tile feature : String) :
      motive (work.1.assignFeature files tile feature).1.memory := by
    unfold assignFeature
    cases hfound : work.1.database.findFeature files tile feature with
    | mk result database =>
        cases result with
        | error fault => exact hwork
        | ok found => exact FrameMemory.assignTileBits_keeps hkept hwork found.1 found.2
  unfold featureLine
  cases tileFeature? line.text with
  | none => exact hwork
  | some named =>
      have hnext := hfeature named.1 named.2
      cases hassigned : work.1.assignFeature files named.1 named.2 with
      | mk next failure =>
          rw [hassigned] at hnext
          cases failure with
          | none =>
              simp only [hassigned]
              exact hnext
          | some fault =>
              simp only [hassigned]
              exact hnext

/-! ## Frames and bits -/

namespace FrameMemory

variable {allowed : UInt32 → Prop}

/-- A memory becomes another by bits that are set: the frames are the same and no bit is cleared. -/
structure GrowsTo (memory filled : FrameMemory) : Prop where
  contains_eq : ∀ address, filled.contains address = memory.contains address
  isSet_of_isSet : ∀ address index, memory.isSet address index = true →
    filled.isSet address index = true

theorem GrowsTo.refl (memory : FrameMemory) : memory.GrowsTo memory :=
  ⟨fun _ => rfl, fun _ _ hset => hset⟩

theorem kept_growsTo (memory : FrameMemory) : KeptBySetting allowed memory.GrowsTo := by
  intro filled next address bit _ hset hfilled
  refine ⟨fun other => (contains_setBit hset other).trans (hfilled.contains_eq other), ?_⟩
  intro other index hbefore
  rw [isSet_setBit hset, hfilled.isSet_of_isSet other index hbefore, Bool.true_or]

/-- Setting bits of other frames leaves a frame. -/
theorem kept_get? {other : UInt32} (h : ¬ allowed other) (frame : Option Frame) :
    KeptBySetting allowed fun memory => memory.get? other = frame := by
  intro memory next address bit haddress hset hmemory
  obtain ⟨-, hbit, rfl⟩ := setBit_eq_ok.1 hset
  have hne : other ≠ address := fun hsame => h (hsame ▸ haddress)
  rw [get?_assign, if_neg hne, hmemory]

/-- A harness clears no bit of a memory and leaves its addresses. -/
theorem growsTo_assignHarness (memory : FrameMemory) (text : String) (region : AddressSet) :
    memory.GrowsTo (memory.assignHarness text region).1 :=
  assignHarness_keeps memory.kept_growsTo (.refl memory) text

/-- A harness leaves the frames of its region. -/
theorem get?_assignHarness (memory : FrameMemory) (text : String) {region : AddressSet}
    {other : UInt32} (h : other ∈ region) :
    (memory.assignHarness text region).1.get? other = memory.get? other :=
  assignHarness_keeps (kept_get? (not_not.2 h) _) rfl text

end FrameMemory

/-- Feature assignments clear no bit of a memory and leave its addresses. -/
theorem Design.growsTo_assignFeatures (files : Files) (design : Design) (text : String) :
    design.memory.GrowsTo (design.assignFeatures files text).1.memory :=
  assignFeatures_keeps design.memory.kept_growsTo (.refl design.memory) files text

end ConfigStream
