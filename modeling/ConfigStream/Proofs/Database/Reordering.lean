import ConfigStream.Proofs.Database.Features
import ConfigStream.Proofs.Database.Harness
import Mathlib.Data.List.Perm.Subperm

/-!
# The order of assignments

A harness and a text of feature assignments set bits line by line, and what a line sets does not
depend on the lines before it. Both work by a `LineRule`, so a text fills a memory if its lines do,
in whatever order and however often they are repeated (`LineRule.Fills.congr`). The two texts may
also change places (`Design.fill_anyOrder`).
-/

namespace ConfigStream

/-- What the lines of a text say. -/
def Text.said (text : String) : List String := (Text.entries text).map Text.Entry.text

/-- How the lines of a text set bits: the places that a line sets, unless it fails, and whether it
is counted. -/
structure LineRule where
  places? : String → Option (List (UInt32 × Nat))
  isCounted : String → Bool

namespace LineRule

/-- The places that a line sets. One that fails has none to tell. -/
def places (rule : LineRule) (line : String) : List (UInt32 × Nat) := (rule.places? line).getD []

/-- Lines fill a memory: none of them fails, and what they set can be set. -/
structure Fills (rule : LineRule) (memory : FrameMemory) (lines : List String)
    (filled : FrameMemory) : Prop where
  reads : ∀ line ∈ lines, (rule.places? line).isSome = true
  sets : memory.setBits (lines.flatMap rule.places) = .ok filled

variable {rule other : LineRule} {memory filled next : FrameMemory} {line : String}
  {lines others : List String} {total : Nat}

theorem Fills.nil : rule.Fills memory [] filled ↔ memory = filled :=
  ⟨fun h => Except.ok.inj h.sets, fun h => ⟨by simp, congrArg Except.ok h⟩⟩

theorem Fills.cons : rule.Fills memory (line :: lines) filled ↔
    ∃ places next, rule.places? line = some places ∧ memory.setBits places = .ok next ∧
      rule.Fills next lines filled := by
  constructor
  · intro h
    obtain ⟨hline, hlines⟩ := List.forall_mem_cons.1 h.reads
    obtain ⟨places, hplaces⟩ := Option.isSome_iff_exists.1 hline
    obtain ⟨next, hnext, hfilled⟩ := FrameMemory.setBits_append.1 (List.flatMap_cons ▸ h.sets)
    rw [LineRule.places, hplaces] at hnext
    exact ⟨places, next, hplaces, hnext, hlines, hfilled⟩
  · rintro ⟨places, next, hplaces, hnext, h⟩
    refine ⟨List.forall_mem_cons.2 ⟨by rw [hplaces, Option.isSome_some], h.reads⟩, ?_⟩
    rw [List.flatMap_cons, LineRule.places, hplaces]
    exact FrameMemory.setBits_append.2 ⟨next, hnext, h.sets⟩

/-- Neither the sequence of lines counts, nor how often a line is repeated. -/
theorem Fills.congr (h : rule.Fills memory lines filled)
    (hsame : ∀ line, line ∈ others ↔ line ∈ lines) : rule.Fills memory others filled := by
  refine ⟨fun line hline => h.reads line ((hsame line).1 hline), ?_⟩
  apply (FrameMemory.setBits_congr fun place => ?_).1 h.sets
  simp only [List.mem_flatMap, hsame]

/-- Texts of two kinds may change places. -/
theorem Fills.swap (h : rule.Fills memory lines next) (hother : other.Fills next others filled) :
    ∃ between, other.Fills memory others between ∧ rule.Fills between lines filled := by
  have hboth := FrameMemory.setBits_append.2 ⟨next, h.sets, hother.sets⟩
  rw [FrameMemory.setBits_congr fun place => List.perm_append_comm.mem_iff] at hboth
  obtain ⟨between, hfirst, hsecond⟩ := FrameMemory.setBits_append.1 hboth
  exact ⟨between, ⟨hother.reads, hfirst⟩, ⟨h.reads, hsecond⟩⟩

/-- Steps that each do what a rule says of their line fill a memory and count lines by the rule. The
memory and the count are what is seen of a state. -/
theorem runSteps_eq_none {σ ε : Type} {step : σ → Text.Entry → σ × Option ε}
    (seen : σ → FrameMemory × Nat) (motive : σ → Prop)
    (hkeeps : ∀ state line, motive state → motive (step state line).1)
    (hstep : ∀ state line, motive state → ∀ filled total,
      (∃ next, step state line = (next, none) ∧ seen next = (filled, total)) ↔
        ∃ places, rule.places? line.text = some places ∧
          (seen state).1.setBits places = .ok filled ∧
          total = (seen state).2 + if rule.isCounted line.text then 1 else 0)
    (state : σ) (h : motive state) (lines : List Text.Entry) (filled : FrameMemory)
    (total : Nat) :
    (∃ final, runSteps step state lines = (final, none) ∧ seen final = (filled, total)) ↔
      rule.Fills (seen state).1 (lines.map Text.Entry.text) filled ∧
        total = (seen state).2 + (lines.map Text.Entry.text).countP rule.isCounted := by
  induction lines generalizing state with
  | nil =>
      rw [List.map_nil, Fills.nil, List.countP_nil, Nat.add_zero]
      simp [runSteps, Prod.ext_iff, eq_comm]
  | cons line lines ih =>
      have hrest {next : σ} (hnext : step state line = (next, none)) :=
        ih next (by simpa only [hnext] using hkeeps state line h)
      rw [List.map_cons, Fills.cons, List.countP_cons]
      constructor
      · rintro ⟨final, hrun, hseen⟩
        obtain ⟨next, hnext, hlines⟩ := runSteps_cons_eq_none.1 hrun
        obtain ⟨hfills, htotal⟩ := (hrest hnext).1 ⟨final, hlines, hseen⟩
        obtain ⟨places, hplaces, hset, hcount⟩ :=
          (hstep state line h _ _).1 ⟨next, hnext, rfl⟩
        exact ⟨⟨places, _, hplaces, hset, hfills⟩, by omega⟩
      · rintro ⟨⟨places, after, hplaces, hset, hfills⟩, htotal⟩
        obtain ⟨next, hnext, hseen⟩ :=
          (hstep state line h _ _).2 ⟨places, hplaces, hset, rfl⟩
        obtain ⟨final, hlines, hlast⟩ := (hrest hnext).2 ⟨by rwa [hseen], by rw [hseen]; omega⟩
        exact ⟨final, runSteps_cons_eq_none.2 ⟨next, hnext, hlines⟩, hlast⟩

/-! ## Harnesses -/

/-- A line of a harness sets the bit of its address, and is counted, unless the frame is in the
region. It fails if it is no address. -/
def harness (region : AddressSet) : LineRule where
  places? line :=
    match BitAddress.parse line with
    | .ok address => some (Harness.placesOutside region [address])
    | .error _ => none
  isCounted line :=
    match BitAddress.parse line with
    | .ok address => !region.contains address.frame
    | .error _ => false

theorem harnessLine_iff (region : AddressSet) (work : FrameMemory × Nat) (line : Text.Entry)
    (filled : FrameMemory) (total : Nat) :
    (∃ next, FrameMemory.harnessLine region work line = (next, none) ∧ next = (filled, total)) ↔
      ∃ places, (harness region).places? line.text = some places ∧
        work.1.setBits places = .ok filled ∧
        total = work.2 + if (harness region).isCounted line.text then 1 else 0 := by
  rw [exists_eq_right, FrameMemory.harnessLine_eq_none]
  cases hparse : BitAddress.parse line.text with
  | error fault => simp [harness, hparse]
  | ok address =>
      simp only [harness, hparse, Except.ok.injEq, exists_eq_left', Option.some.injEq]
      cases hregion : region.contains address.frame with
      | true => simp [Harness.placesOutside_of_mem (Std.ExtTreeSet.mem_iff_contains.2 hregion)]
      | false =>
          have hmem : address.frame ∉ region := by simp [Std.ExtTreeSet.mem_iff_contains, hregion]
          simp [Harness.placesOutside_of_not_mem hmem]

/-- A harness is worked through to its end if and only if its lines fill the memory. -/
theorem assignHarness_iff_fills {region : AddressSet} {text : String} :
    memory.assignHarness text region = (filled, .ok total) ↔
      (harness region).Fills memory (Text.said text) filled ∧
        total = (Text.said text).countP (harness region).isCounted := by
  have hrun := runSteps_eq_none id (fun _ => True) (fun _ _ _ => trivial)
    (fun work line _ => harnessLine_iff region work line) (memory, 0) trivial (Text.entries text)
    filled total
  simp only [id_eq, exists_eq_right, Nat.zero_add] at hrun
  rw [Text.said, ← hrun, FrameMemory.assignHarness_eq, counted_eq_ok]

/-! ## Features -/

/-- A line of feature assignments sets the places of the bits of its feature, and is counted. It
fails if the look-up fails or a bit has no place. A line without a dot sets nothing. -/
def features (files : Files) (device : Database) : LineRule where
  places? line :=
    match Design.tileFeature? line with
    | none => some []
    | some (tile, feature) =>
      match (device.findFeature files tile feature).1 with
      | .ok (placed, bits) => bits.mapM placed.locate?
      | .error _ => none
  isCounted line := (Design.tileFeature? line).isSome

variable {files : Files} {device : Database}

theorem extends_featureLine {work : Design × Nat}
    (h : Database.Extends files device work.1.database) (line : Text.Entry) :
    Database.Extends files device (Design.featureLine files work line).1.1.database := by
  unfold Design.featureLine
  cases Design.tileFeature? line.text with
  | none => exact h
  | some named =>
      have hmore := h.trans (Design.extends_assignFeature files work.1 named.1 named.2)
      cases hassigned : work.1.assignFeature files named.1 named.2 with
      | mk next failure =>
          rw [hassigned] at hmore
          cases failure <;> simpa only [hassigned] using hmore

theorem featureLine_iff {work : Design × Nat}
    (h : Database.Extends files device work.1.database) (line : Text.Entry)
    (filled : FrameMemory) (total : Nat) :
    (∃ next, Design.featureLine files work line = (next, none) ∧
        (next.1.memory, next.2) = (filled, total)) ↔
      ∃ places, (features files device).places? line.text = some places ∧
        work.1.memory.setBits places = .ok filled ∧
        total = work.2 + if (features files device).isCounted line.text then 1 else 0 := by
  cases hnamed : Design.tileFeature? line.text with
  | none =>
      simp only [features, Design.featureLine, hnamed, Prod.mk.injEq, and_true, exists_eq_left',
        Option.some.injEq, FrameMemory.setBits_nil, Except.ok.injEq, Option.isSome_none,
        Bool.false_eq_true, if_false, Nat.add_zero, eq_comm (a := total)]
  | some named =>
      have hassign := @Design.exists_assignFeature files work.1 filled named.1 named.2
      rw [h.findFeature named.1 named.2] at hassign
      simp only [features, Design.featureLine, hnamed, Option.isSome_some, if_true]
      constructor
      · rintro ⟨next, hnext, hseen⟩
        cases hresult : work.1.assignFeature files named.1 named.2 with
        | mk design failure =>
            cases failure with
            | some fault => simp [hresult] at hnext
            | none =>
                simp only [hresult, Prod.mk.injEq, and_true] at hnext
                subst hnext
                obtain ⟨rfl, rfl⟩ := Prod.mk.inj hseen
                obtain ⟨placed, bits, places, hfound, hplaces, hset⟩ :=
                  hassign.1 ⟨design, hresult, rfl⟩
                exact ⟨places, by simp only [hfound, mapM_eq_some.2 hplaces], hset, rfl⟩
      · rintro ⟨places, hplaces, hset, rfl⟩
        cases hfound : (device.findFeature files named.1 named.2).1 with
        | error fault => simp [hfound] at hplaces
        | ok found =>
            simp only [hfound, mapM_eq_some] at hplaces
            obtain ⟨design, hresult, rfl⟩ :=
              hassign.2 ⟨found.1, found.2, places, hfound, hplaces, hset⟩
            exact ⟨(design, work.2 + 1), by simp only [hresult], rfl⟩

/-- A text of feature assignments is worked through to its end if and only if its lines fill the
memory. -/
theorem assignFeatures_iff_fills {design : Design} {text : String}
    (h : Database.Extends files device design.database) :
    (∃ next, design.assignFeatures files text = (next, .ok total) ∧ next.memory = filled) ↔
      (features files device).Fills design.memory (Text.said text) filled ∧
        total = (Text.said text).countP (features files device).isCounted := by
  have hrun := runSteps_eq_none (fun work : Design × Nat => (work.1.memory, work.2))
    (fun work => Database.Extends files device work.1.database)
    (fun _ line hwork => extends_featureLine hwork line)
    (fun _ line hwork => featureLine_iff hwork line) (design, 0) h (Text.entries text) filled total
  rw [Nat.zero_add] at hrun
  simp only [Text.said, ← hrun, Design.assignFeatures_eq, counted_eq_ok]
  simp [Prod.ext_iff]

end LineRule

/-! ## Both texts -/

namespace Design

/-- A harness is worked through to its end, and then a text of feature assignments. -/
def HarnessFirst (files : Files) (design : Design) (region : AddressSet)
    (harness features : String) (filled : FrameMemory) (ingested applied : Nat) : Prop :=
  ∃ between last, design.memory.assignHarness harness region = (between, .ok ingested) ∧
    assignFeatures files ⟨design.database, between⟩ features = (last, .ok applied) ∧
    last.memory = filled

/-- A text of feature assignments is worked through to its end, and then a harness. -/
def FeaturesFirst (files : Files) (design : Design) (region : AddressSet)
    (harness features : String) (filled : FrameMemory) (ingested applied : Nat) : Prop :=
  ∃ between, design.assignFeatures files features = (between, .ok applied) ∧
    between.memory.assignHarness harness region = (filled, .ok ingested)

variable {files : Files} {design : Design} {region : AddressSet} {harness features : String}
  {filled : FrameMemory} {ingested applied : Nat}

theorem harnessFirst_iff :
    HarnessFirst files design region harness features filled ingested applied ↔
      (∃ between, (LineRule.harness region).Fills design.memory (Text.said harness) between ∧
        (LineRule.features files design.database).Fills between (Text.said features) filled) ∧
      ingested = (Text.said harness).countP (LineRule.harness region).isCounted ∧
      applied =
        (Text.said features).countP (LineRule.features files design.database).isCounted := by
  have hfeatures (between : FrameMemory) :
      (∃ last, assignFeatures files ⟨design.database, between⟩ features = (last, .ok applied) ∧
        last.memory = filled) ↔ _ :=
    LineRule.assignFeatures_iff_fills (.refl design.database)
  constructor
  · rintro ⟨between, last, hharness, happlied⟩
    obtain ⟨hfirst, hingested⟩ := LineRule.assignHarness_iff_fills.1 hharness
    obtain ⟨hsecond, hcount⟩ := (hfeatures between).1 ⟨last, happlied⟩
    exact ⟨⟨between, hfirst, hsecond⟩, hingested, hcount⟩
  · rintro ⟨⟨between, hfirst, hsecond⟩, hingested, hcount⟩
    obtain ⟨last, happlied⟩ := (hfeatures between).2 ⟨hsecond, hcount⟩
    exact ⟨between, last, LineRule.assignHarness_iff_fills.2 ⟨hfirst, hingested⟩, happlied⟩

theorem featuresFirst_iff :
    FeaturesFirst files design region harness features filled ingested applied ↔
      (∃ between, (LineRule.features files design.database).Fills design.memory
          (Text.said features) between ∧
        (LineRule.harness region).Fills between (Text.said harness) filled) ∧
      ingested = (Text.said harness).countP (LineRule.harness region).isCounted ∧
      applied =
        (Text.said features).countP (LineRule.features files design.database).isCounted := by
  have hfeatures (between : FrameMemory) :
      (∃ last, design.assignFeatures files features = (last, .ok applied) ∧
        last.memory = between) ↔ _ :=
    LineRule.assignFeatures_iff_fills (.refl design.database)
  constructor
  · rintro ⟨between, happlied, hharness⟩
    obtain ⟨hfirst, hcount⟩ := (hfeatures between.memory).1 ⟨between, happlied, rfl⟩
    obtain ⟨hsecond, hingested⟩ := LineRule.assignHarness_iff_fills.1 hharness
    exact ⟨⟨between.memory, hfirst, hsecond⟩, hingested, hcount⟩
  · rintro ⟨⟨between, hfirst, hsecond⟩, hingested, hcount⟩
    obtain ⟨last, happlied, rfl⟩ := (hfeatures between).2 ⟨hfirst, hcount⟩
    exact ⟨last, happlied, LineRule.assignHarness_iff_fills.2 ⟨hsecond, hingested⟩⟩

/-- The two texts may change places. -/
theorem harnessFirst_iff_featuresFirst :
    HarnessFirst files design region harness features filled ingested applied ↔
      FeaturesFirst files design region harness features filled ingested applied := by
  rw [harnessFirst_iff, featuresFirst_iff]
  refine and_congr_left' ⟨?_, ?_⟩
  · rintro ⟨between, hfirst, hsecond⟩
    exact hfirst.swap hsecond
  · rintro ⟨between, hfirst, hsecond⟩
    exact hfirst.swap hsecond

/-- A harness and a text of feature assignments that are both worked through to their ends,
whichever comes first, may be worked through in either order, and so may any texts with the same
lines in any sequence and any number. The memory they leave is the same. The counts are the same if
the lines are only put into another sequence, and not less if lines are only repeated. -/
theorem fill_anyOrder
    (h : HarnessFirst files design region harness features filled ingested applied ∨
      FeaturesFirst files design region harness features filled ingested applied)
    {otherHarness otherFeatures : String}
    (hharness : ∀ line, line ∈ Text.said otherHarness ↔ line ∈ Text.said harness)
    (hfeatures : ∀ line, line ∈ Text.said otherFeatures ↔ line ∈ Text.said features) :
    ∃ seen set,
      HarnessFirst files design region otherHarness otherFeatures filled seen set ∧
      FeaturesFirst files design region otherHarness otherFeatures filled seen set ∧
      ((Text.said otherHarness).Perm (Text.said harness) → seen = ingested) ∧
      ((Text.said otherFeatures).Perm (Text.said features) → set = applied) ∧
      ((Text.said harness).Subperm (Text.said otherHarness) → ingested ≤ seen) ∧
      ((Text.said features).Subperm (Text.said otherFeatures) → applied ≤ set) := by
  obtain ⟨⟨between, hfirst, hsecond⟩, rfl, rfl⟩ :=
    harnessFirst_iff.1 (h.elim id harnessFirst_iff_featuresFirst.2)
  have hother := harnessFirst_iff.2
    ⟨⟨between, hfirst.congr hharness, hsecond.congr hfeatures⟩, rfl, rfl⟩
  exact ⟨_, _, hother, harnessFirst_iff_featuresFirst.1 hother, fun hperm => hperm.countP_eq _,
    fun hperm => hperm.countP_eq _, List.Subperm.countP_le _, List.Subperm.countP_le _⟩

/-- The two lines of a harness may change places, the line of a feature may be repeated, and the
features may come first. -/
theorem fill_anyOrder_repeated :
    ∃ device filled set, Database.load Database.cellFiles "db" = .ok device ∧
      HarnessFirst Database.cellFiles ⟨device, .ofAddresses [2]⟩ ∅ "F0x2W0B0\nF0x2W0B1\n" "T.A\n"
        filled 2 1 ∧
      FeaturesFirst Database.cellFiles ⟨device, .ofAddresses [2]⟩ ∅ "F0x2W0B1\nF0x2W0B0\n"
        "T.A\nT.A\n" filled 2 set ∧ 1 ≤ set := by
  have hruns : (Database.load Database.cellFiles "db").map (fun device =>
      let worked := (FrameMemory.ofAddresses [2]).assignHarness "F0x2W0B0\nF0x2W0B1\n" ∅
      (worked.2, (assignFeatures Database.cellFiles ⟨device, worked.1⟩ "T.A\n").2)) =
        .ok (.ok 2, .ok 1) := by decide +kernel
  have hharness : Text.said "F0x2W0B0\nF0x2W0B1\n" = ["F0x2W0B0", "F0x2W0B1"] := by
    decide +kernel
  have hswapped : Text.said "F0x2W0B1\nF0x2W0B0\n" = ["F0x2W0B1", "F0x2W0B0"] := by
    decide +kernel
  have hfeatures : Text.said "T.A\n" = ["T.A"] := by decide +kernel
  have hrepeated : Text.said "T.A\nT.A\n" = ["T.A", "T.A"] := by decide +kernel
  cases hload : Database.load Database.cellFiles "db" with
  | error fault => rw [hload] at hruns; cases hruns
  | ok device =>
      rw [hload] at hruns
      obtain ⟨hingested, happlied⟩ := Prod.mk.inj (Except.ok.inj hruns)
      have hfirst : HarnessFirst Database.cellFiles ⟨device, .ofAddresses [2]⟩ ∅
          "F0x2W0B0\nF0x2W0B1\n" "T.A\n" _ 2 1 :=
        ⟨_, _, Prod.ext rfl hingested, Prod.ext rfl happlied, rfl⟩
      have hperm : (Text.said "F0x2W0B1\nF0x2W0B0\n").Perm (Text.said "F0x2W0B0\nF0x2W0B1\n") := by
        rw [hharness, hswapped]
        exact .swap _ _ _
      have hmore : (Text.said "T.A\n").Subperm (Text.said "T.A\nT.A\n") := by
        rw [hfeatures, hrepeated]
        exact (List.sublist_cons_self _ _).subperm
      have hsame (line : String) :
          line ∈ Text.said "T.A\nT.A\n" ↔ line ∈ Text.said "T.A\n" := by
        simp [hfeatures, hrepeated]
      obtain ⟨seen, set, -, hother, hseen, -, -, hset⟩ :=
        fill_anyOrder (.inl hfirst) (fun _ => hperm.mem_iff) hsame
      exact ⟨device, _, set, rfl, hfirst, hseen hperm ▸ hother, hset hmore⟩

end Design

end ConfigStream
