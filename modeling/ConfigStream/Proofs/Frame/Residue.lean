import ConfigStream.Proofs.Frame.Columns
import ConfigStream.Proofs.Frame.Syndrome

/-!
# What a changed frame does not agree on

The residue of a frame is the difference of its reserved region and the syndrome of its data bits;
the check of the frame passes exactly if it is zero. It is the exclusive or of the columns of all
set bits, reserved and data bits alike, so replacing a word changes it by the columns of the bits
that change (`Frame.residue_replace`). An odd number of changed bits and two changed bits are always
noticed (`Frame.check_replace_ne`).
-/

namespace ConfigStream

/-! ## Exclusive or over a list -/

section XorSum

variable {α : Type} {f g : α → UInt64}

/-- The exclusive or of the values of a function. -/
def xorSum (f : α → UInt64) (items : List α) : UInt64 :=
  items.foldl (fun sum item => sum ^^^ f item) 0

theorem xorSum_cons (f : α → UInt64) (item : α) (items : List α) :
    xorSum f (item :: items) = f item ^^^ xorSum f items := by
  have hstart : (items.map f).foldl (· ^^^ ·) (f item ^^^ 0) =
      f item ^^^ (items.map f).foldl (· ^^^ ·) 0 := List.foldl_assoc
  simpa [xorSum, List.foldl_map] using hstart

theorem xorSum_append (f : α → UInt64) (first second : List α) :
    xorSum f (first ++ second) = xorSum f first ^^^ xorSum f second := by
  induction first with
  | nil => exact UInt64.zero_xor.symm
  | cons item first ih => rw [List.cons_append, xorSum_cons, xorSum_cons, ih, UInt64.xor_assoc]

theorem xorSum_congr {items : List α} (h : ∀ item ∈ items, f item = g item) :
    xorSum f items = xorSum g items :=
  List.foldl_ext _ _ _ fun sum item hitem => congrArg (sum ^^^ ·) (h item hitem)

theorem xorSum_xor (f g : α → UInt64) (items : List α) :
    xorSum (fun item => f item ^^^ g item) items = xorSum f items ^^^ xorSum g items := by
  induction items with
  | nil => exact UInt64.xor_self.symm
  | cons item items ih =>
      rw [xorSum_cons, xorSum_cons, xorSum_cons, ih]
      ac_rfl

theorem xorSum_map {β : Type} (f : β → UInt64) (g : α → β) (items : List α) :
    xorSum f (items.map g) = xorSum (fun item => f (g item)) items :=
  List.foldl_map

theorem xorSum_flatMap {β : Type} (f : β → UInt64) (g : α → List β) (items : List α) :
    xorSum f (items.flatMap g) = xorSum (fun item => xorSum f (g item)) items := by
  induction items with
  | nil => rfl
  | cons item items ih => rw [List.flatMap_cons, xorSum_append, xorSum_cons, ih]

/-- The sequence of the items does not count. -/
theorem xorSum_perm {items others : List α} (f : α → UInt64) (h : items.Perm others) :
    xorSum f items = xorSum f others :=
  h.foldl_eq' (fun _ _ _ _ sum => by ac_rfl) 0

/-- The items for which one of two properties holds, but not both, make up the difference. -/
theorem xorSum_filter_xor (f : α → UInt64) (first second : α → Bool) (items : List α) :
    xorSum f (items.filter fun item => first item ^^ second item) =
      xorSum f (items.filter first) ^^^ xorSum f (items.filter second) := by
  induction items with
  | nil => exact UInt64.xor_self.symm
  | cons item items ih =>
      rw [List.filter_cons, List.filter_cons, List.filter_cons]
      cases first item <;> cases second item <;>
        simp only [Bool.xor_false, Bool.xor_true, Bool.not_true, Bool.not_false, if_true,
          Bool.false_eq_true, if_false, xorSum_cons, ih]
      · ac_rfl
      · ac_rfl
      · rw [UInt64.xor_assoc, UInt64.xor_comm _ (f item ^^^ _), UInt64.xor_assoc,
          ← UInt64.xor_assoc (f item), UInt64.xor_self, UInt64.zero_xor, UInt64.xor_comm]

/-- The items with a property and those without it make up all. -/
theorem xorSum_filter (f : α → UInt64) (keep : α → Bool) (items : List α) :
    xorSum f (items.filter keep) ^^^ xorSum f (items.filter fun item => !keep item) =
      xorSum f items := by
  induction items with
  | nil => exact UInt64.xor_self
  | cons item items ih =>
      rw [xorSum_cons, ← ih]
      cases h : keep item <;>
        simp only [List.filter_cons, h, Bool.not_false, Bool.not_true, if_true,
          Bool.false_eq_true, if_false, xorSum_cons] <;>
        ac_rfl

/-- Two fields have no bit in common. -/
theorem and_eq_zero_iff {first second : UInt64} :
    first &&& second = 0 ↔
      ∀ place, first.toNat.testBit place = true → second.toNat.testBit place = false := by
  rw [← UInt64.toNat_inj, UInt64.toNat_and, UInt64.toNat_zero]
  constructor
  · intro h place hfirst
    have hplace := congrArg (·.testBit place) h
    simpa [Nat.testBit_and, hfirst] using hplace
  · intro h
    apply Nat.eq_of_testBit_eq
    intro place
    rw [Nat.testBit_and, Nat.zero_testBit]
    cases hfirst : first.toNat.testBit place with
    | true => exact h place hfirst
    | false => rfl

theorem or_eq_xor {first second : UInt64} (h : first &&& second = 0) :
    first ||| second = first ^^^ second := by
  apply UInt64.toNat_inj.1
  apply Nat.eq_of_testBit_eq
  intro place
  rw [UInt64.toNat_or, UInt64.toNat_xor, Nat.testBit_or, Nat.testBit_xor]
  cases hfirst : first.toNat.testBit place with
  | true => rw [and_eq_zero_iff.1 h place hfirst]; rfl
  | false => rw [Bool.false_or, Bool.false_xor]

/-- Fields without a bit in common are joined by an exclusive or. -/
theorem foldl_or_eq_xorSum {items : List α}
    (h : items.Pairwise fun first second => f first &&& f second = 0) :
    items.foldl (fun field item => field ||| f item) 0 = xorSum f items := by
  -- What has been joined has no bit in common with what is still to come.
  have hfrom (field : UInt64) (hfield : ∀ item ∈ items, field &&& f item = 0) :
      items.foldl (fun field item => field ||| f item) field = field ^^^ xorSum f items := by
    induction items generalizing field with
    | nil => exact UInt64.xor_zero.symm
    | cons item items ih =>
        obtain ⟨hitem, hitems⟩ := List.pairwise_cons.1 h
        rw [List.foldl_cons, ih hitems, xorSum_cons, or_eq_xor (hfield item List.mem_cons_self),
          UInt64.xor_assoc]
        intro other hother
        apply and_eq_zero_iff.2
        intro place hplace
        rw [UInt64.toNat_or, Nat.testBit_or, Bool.or_eq_true] at hplace
        exact hplace.elim (and_eq_zero_iff.1 (hfield other (List.mem_cons_of_mem _ hother)) place)
          (and_eq_zero_iff.1 (hitem other hother) place)
  have hzero := hfrom 0 fun _ _ => UInt64.zero_and
  rwa [UInt64.zero_xor] at hzero

/-- The bits in which two words differ make up the difference of all their bits. -/
theorem xorSum_setBits_xor (f : Nat → UInt64) (first second : UInt32) :
    xorSum f (Word.setBits (first ^^^ second)) =
      xorSum f (Word.setBits first) ^^^ xorSum f (Word.setBits second) := by
  simp only [Frame.setBits_eq]
  rw [← xorSum_filter_xor]
  simp only [← Word.testBit_xor]

/-- Values with an odd number of ones each have an odd number of ones together if they are odd in
number. -/
theorem ones_xorSum {items : List α} (h : ∀ item ∈ items, Frame.ones (f item) % 2 = 1) :
    Frame.ones (xorSum f items) % 2 = items.length % 2 := by
  induction items with
  | nil => exact show Frame.ones 0 % 2 = 0 by decide
  | cons item items ih =>
      have hitem := h item List.mem_cons_self
      have hitems := ih fun other hother => h other (List.mem_cons_of_mem _ hother)
      rw [xorSum_cons, Frame.ones_xor, List.length_cons]
      omega

/-- Values with an odd number of ones that are odd in number, or two different ones, do not cancel
each other. -/
theorem xorSum_ne_zero {items : List α} (hones : ∀ item ∈ items, Frame.ones (f item) % 2 = 1)
    (hinjective : ∀ first ∈ items, ∀ second ∈ items, f first = f second → first = second)
    (hnodup : items.Nodup) (h : items.length % 2 = 1 ∨ items.length = 2) :
    xorSum f items ≠ 0 := by
  intro hzero
  rcases h with hodd | htwo
  · have hsum := ones_xorSum hones
    rw [hzero, hodd] at hsum
    exact absurd hsum (by decide)
  · obtain ⟨first, second, rfl⟩ := List.length_eq_two.1 htwo
    rw [xorSum_cons, xorSum_cons, show xorSum f [] = 0 from rfl, UInt64.xor_zero,
      UInt64.xor_eq_zero_iff] at hzero
    have hsame := hinjective first (by simp) second (by simp) hzero
    simp [hsame] at hnodup

end XorSum

/-! ## Words -/

namespace Frame

/-- What a word contributes to the difference of reserved region and syndrome. -/
def residueOf (word : Nat) (value : UInt32) : UInt64 :=
  storedPart word value ^^^ Syndrome.ofWord word value

/-- Different single bits have no bit in common. -/
theorem one_shiftLeft_and {first second : Nat} (hfirst : first < 64) (hsecond : second < 64)
    (hne : first ≠ second) :
    (1 <<< UInt64.ofNat first : UInt64) &&& 1 <<< UInt64.ofNat second = 0 := by
  apply and_eq_zero_iff.2
  intro place hplace
  rw [toNat_one_shiftLeft hfirst, Nat.testBit_two_pow, decide_eq_true_iff] at hplace
  rw [toNat_one_shiftLeft hsecond, Nat.testBit_two_pow_of_ne (hplace ▸ hne.symm)]

theorem nodup_setBits (value : UInt32) : (Word.setBits value).Nodup := by
  rw [setBits_eq]
  exact List.nodup_range.filter _

/-- A word contributes the columns of its set bits. -/
theorem residueOf_eq (word : Nat) (value : UInt32) :
    residueOf word value = xorSum (column word) (Word.setBits value) := by
  have hstored : storedPart word value =
      xorSum (column word) ((Word.setBits value).filter (isReserved word)) := by
    have hmem {bit : Nat} (hbit : bit ∈ (Word.setBits value).filter (isReserved word)) :
        column word bit = 1 <<< UInt64.ofNat (reservedPlace word bit) := by
      rw [column, checkPlaces, if_pos (List.mem_filter.1 hbit).2]
      exact UInt64.zero_or
    have hlt {bit : Nat} (hbit : bit ∈ (Word.setBits value).filter (isReserved word)) :
        reservedPlace word bit < 64 :=
      reservedPlaces_lt word value _ (List.mem_map_of_mem hbit)
    rw [storedPart_eq, ofPlaces, List.foldl_map, foldl_or_eq_xorSum]
    · exact (xorSum_congr fun bit hbit => hmem hbit).symm
    · refine ((nodup_setBits value).filter _).imp_of_mem fun {first second} hfirst hsecond hne => ?_
      have hplaces : reservedPlace word first ≠ reservedPlace word second :=
        fun hsame => hne (Nat.add_left_cancel hsame)
      exact one_shiftLeft_and (hlt hfirst) (hlt hsecond) hplaces
  have hdata : Syndrome.ofWord word value =
      xorSum (column word) ((Word.setBits value).filter fun bit => !isReserved word bit) := by
    refine xorSum_congr fun bit hbit => ?_
    have hkept := (List.mem_filter.1 hbit).2
    rw [Bool.not_eq_true'] at hkept
    rw [Syndrome.ofBit_eq, column, checkPlaces, hkept]
    rfl
  rw [residueOf, hstored, hdata, xorSum_filter]

theorem residueOf_xor (word : Nat) (first second : UInt32) :
    residueOf word (first ^^^ second) = residueOf word first ^^^ residueOf word second := by
  rw [residueOf_eq, residueOf_eq, residueOf_eq, xorSum_setBits_xor]

/-- An odd number of bits of a word, and any two bits of it, make a difference. -/
theorem residueOf_ne_zero {word : Nat} (hword : word < wordCount) {value : UInt32}
    (h : (Word.setBits value).length % 2 = 1 ∨ (Word.setBits value).length = 2) :
    residueOf word value ≠ 0 := by
  have hwidth {bit : Nat} (hbit : bit ∈ Word.setBits value) : bit < Word.width :=
    Word.lt_width_of_mem_setBits hbit
  rw [residueOf_eq]
  refine xorSum_ne_zero (fun bit hbit => odd_ones_column hword (hwidth hbit))
    (fun first hfirst second hsecond hsame => ?_) (nodup_setBits value) h
  exact (column_injective hword (hwidth hfirst) hword (hwidth hsecond) hsame).2

/-! ## Frames -/

/-- The words of a frame hold different parts of the reserved region. -/
theorem storedPart_and {word other : Nat} (hne : word ≠ other) (value another : UInt32) :
    storedPart word value &&& storedPart other another = 0 := by
  have hmem {word : Nat} {value : UInt32} {place : Nat} :
      (storedPart word value).toNat.testBit place = true ↔
        ∃ bit ∈ (Word.setBits value).filter (isReserved word), reservedPlace word bit = place := by
    rw [storedPart_eq, testBit_ofPlaces (reservedPlaces_lt word value), decide_eq_true_iff,
      List.mem_map]
  apply and_eq_zero_iff.2
  intro place hplace
  rw [← Bool.not_eq_true]
  intro hother
  obtain ⟨bit, hbit, rfl⟩ := hmem.1 hplace
  obtain ⟨second, hsecond, hsame⟩ := hmem.1 hother
  obtain ⟨hset, hreserved⟩ := List.mem_filter.1 hbit
  obtain ⟨hkept, hheld⟩ := List.mem_filter.1 hsecond
  have hwidth := Word.lt_width_of_mem_setBits hset
  have hlater := Word.lt_width_of_mem_setBits hkept
  simp only [isReserved, Bool.or_eq_true, Bool.and_eq_true, beq_iff_eq, decide_eq_true_eq]
    at hreserved hheld
  simp only [reservedPlace, reservedWord, Word.width] at hsame hreserved hheld hwidth hlater
  omega

/-- The difference of the reserved region of a frame and the syndrome of its data bits. -/
def residue (frame : Frame) : UInt64 :=
  frame.storedSyndrome ^^^ frame.syndrome

/-- The check of a frame passes if it has no residue. -/
theorem residue_eq_zero_iff {frame : Frame} :
    frame.residue = 0 ↔ frame.storedSyndrome = frame.syndrome :=
  UInt64.xor_eq_zero_iff

/-- The residue of a frame is what its words contribute. -/
theorem residue_eq (frame : Frame) :
    frame.residue =
      xorSum (fun entry => residueOf entry.2 entry.1) frame.words.toList.zipIdx := by
  have hplaces : frame.words.toList.zipIdx.Pairwise fun first second => first.2 ≠ second.2 := by
    rw [← List.pairwise_map, List.zipIdx_map_snd]
    exact List.nodup_range'
  have hstored : frame.storedSyndrome =
      xorSum (fun entry => storedPart entry.2 entry.1) frame.words.toList.zipIdx :=
    foldl_or_eq_xorSum (hplaces.imp fun hne => storedPart_and hne _ _)
  have hsyndrome : frame.syndrome =
      xorSum (fun entry => Syndrome.ofWord entry.2 entry.1) frame.words.toList.zipIdx := by
    rw [syndrome, Syndrome.ofWords,
      List.take_of_length_le (Nat.le_of_eq frame.words.length_toList)]
    rfl
  rw [residue, hstored, hsyndrome, ← xorSum_xor]
  rfl

section Replace

variable {frame changed : Frame} {before after : List UInt32} {word other : UInt32}

/-- A word that is replaced leaves as many words. -/
theorem length_replace (hframe : frame.words.toList = before ++ word :: after) (other : UInt32) :
    (before ++ other :: after).length = wordCount := by
  rw [← frame.words.length_toList, hframe, List.length_append, List.length_append,
    List.length_cons, List.length_cons]

/-- A word that is replaced changes the residue by the columns of the bits that change. -/
theorem residue_replace (hframe : frame.words.toList = before ++ word :: after)
    (hchanged : changed.words.toList = before ++ other :: after) :
    changed.residue = frame.residue ^^^ residueOf before.length (word ^^^ other) := by
  rw [residue_eq, residue_eq, hframe, hchanged, List.zipIdx_append, List.zipIdx_append,
    List.zipIdx_cons, List.zipIdx_cons, xorSum_append, xorSum_append, xorSum_cons, xorSum_cons,
    Nat.zero_add, residueOf_xor]
  generalize residueOf before.length word = old
  generalize residueOf before.length other = new
  generalize xorSum _ before.zipIdx = early
  generalize xorSum _ (after.zipIdx _) = late
  calc early ^^^ (new ^^^ late)
      = (old ^^^ old) ^^^ (early ^^^ (new ^^^ late)) := by rw [UInt64.xor_self, UInt64.zero_xor]
    _ = (early ^^^ (old ^^^ late)) ^^^ (old ^^^ new) := by ac_rfl

/-- The check of a frame whose check passes fails once a word is replaced, if an odd number of bits
or two bits change. -/
theorem check_replace_ne (hframe : frame.words.toList = before ++ word :: after)
    (hchanged : changed.words.toList = before ++ other :: after)
    (hpasses : frame.storedSyndrome = frame.syndrome)
    (h : (Word.setBits (word ^^^ other)).length % 2 = 1 ∨
      (Word.setBits (word ^^^ other)).length = 2) :
    changed.storedSyndrome ≠ changed.syndrome := by
  have hlength : before.length < wordCount := by
    have hwhole := length_replace hframe word
    rw [List.length_append, List.length_cons] at hwhole
    omega
  rw [Ne, ← residue_eq_zero_iff, residue_replace hframe hchanged, residue_eq_zero_iff.2 hpasses,
    UInt64.zero_xor]
  exact residueOf_ne_zero hlength h

end Replace

end Frame

end ConfigStream
