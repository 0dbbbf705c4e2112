import ConfigStream.Database.Tile
import Mathlib.Data.List.Basic
import Mathlib.Data.List.Induction

/-!
# Tiles by name

Of tiles with one name the last counts (`Tiles.get?_ofList`), and it stands where the first of them
stood (`Tiles.names_pairwise`).
-/

namespace ConfigStream.Tiles

variable {listed : List Tile} {tile : Tile} {name : String}

/-! ## Names -/

/-- The names of tiles, one that is given again as often as it is given. -/
def namesOf (listed : List Tile) : List String := listed.map Tile.name

theorem namesOf_concat (listed : List Tile) (tile : Tile) :
    namesOf (listed ++ [tile]) = namesOf listed ++ [tile.name] :=
  List.map_append

theorem ofList_concat (listed : List Tile) (tile : Tile) :
    ofList (listed ++ [tile]) = (ofList listed).insert tile := by
  rw [ofList, List.foldl_append]
  rfl

theorem get?_insert (tiles : Tiles) (tile : Tile) (name : String) :
    (tiles.insert tile).get? name = if tile.name = name then some tile else tiles.get? name := by
  simp only [insert, get?, Std.ExtTreeMap.getElem?_insert, Std.compare_eq_iff_eq]

theorem contains_ofList : (ofList listed).byName.contains name = true ↔ name ∈ namesOf listed := by
  induction listed using List.reverseRecOn with
  | nil => simp [ofList, empty, namesOf]
  | append_singleton listed tile ih =>
      rw [ofList_concat, namesOf_concat, List.mem_append, ← ih, List.mem_singleton]
      show ((ofList listed).byName.insert tile.name tile).contains name = true ↔ _
      rw [Std.ExtTreeMap.contains_insert, Bool.or_eq_true, beq_iff_eq, Std.compare_eq_iff_eq,
        or_comm, @eq_comm _ tile.name]

/-- A name is kept if a tile has it. -/
theorem mem_names : name ∈ (ofList listed).names ↔ name ∈ namesOf listed := by
  induction listed using List.reverseRecOn with
  | nil => simp [ofList, empty, namesOf]
  | append_singleton listed tile ih =>
      rw [ofList_concat, namesOf_concat, List.mem_append, List.mem_singleton]
      show name ∈ (if (ofList listed).byName.contains tile.name then _ else _) ↔ _
      by_cases hknown : (ofList listed).byName.contains tile.name = true
      · rw [if_pos hknown, ih]
        have hmem := contains_ofList.1 hknown
        constructor
        · exact Or.inl
        · intro h
          cases h with
          | inl h => exact h
          | inr h => exact h ▸ hmem
      · rw [if_neg hknown, Array.mem_push, ih]

/-- Names are kept in the order in which they are first given. -/
theorem names_pairwise (listed : List Tile) :
    (ofList listed).names.toList.Pairwise fun first second =>
      (namesOf listed).idxOf first < (namesOf listed).idxOf second := by
  induction listed using List.reverseRecOn with
  | nil => exact .nil
  | append_singleton listed tile ih =>
      have hold {known : String} (hknown : known ∈ (ofList listed).names.toList) :
          (namesOf (listed ++ [tile])).idxOf known = (namesOf listed).idxOf known := by
        rw [namesOf_concat]
        exact List.idxOf_append_of_mem (mem_names.1 (Array.mem_toList_iff.1 hknown))
      have hkept : (ofList listed).names.toList.Pairwise fun first second =>
          (namesOf (listed ++ [tile])).idxOf first < (namesOf (listed ++ [tile])).idxOf second :=
        ih.imp_of_mem fun hfirst hsecond hlt => by rwa [hold hfirst, hold hsecond]
      rw [ofList_concat]
      show (if (ofList listed).byName.contains tile.name then _ else _ :
        Array String).toList.Pairwise _
      by_cases hknown : (ofList listed).byName.contains tile.name = true
      · rwa [if_pos hknown]
      · rw [if_neg hknown, Array.toList_push]
        refine List.pairwise_append.2 ⟨hkept, List.pairwise_singleton _ _, ?_⟩
        intro known hmem added hadded
        obtain rfl := List.mem_singleton.1 hadded
        -- A new name is given after all that are known.
        have hnew : tile.name ∉ namesOf listed := fun hmem => hknown (contains_ofList.2 hmem)
        have hlt := List.idxOf_lt_length_iff.2 (mem_names.1 (Array.mem_toList_iff.1 hmem))
        rw [hold hmem, namesOf_concat, List.idxOf_append_of_notMem hnew]
        exact Nat.lt_of_lt_of_le hlt (Nat.le_add_right _ _)

/-! ## Tiles -/

/-- A tile after which none of its name is listed. -/
def IsLast (listed : List Tile) (tile : Tile) : Prop :=
  ∃ front back, listed = front ++ tile :: back ∧ ∀ other ∈ back, other.name ≠ tile.name

/-- One more tile is the last of its name, and those of other names stay so. -/
theorem isLast_concat {added : Tile} :
    IsLast (listed ++ [added]) tile ↔
      tile = added ∨ added.name ≠ tile.name ∧ IsLast listed tile := by
  constructor
  · intro h
    obtain ⟨front, back, heq, hback⟩ := h
    cases back using List.reverseRecOn with
    | nil => exact .inl (List.singleton_inj.1 (List.append_inj' heq rfl).2).symm
    | append_singleton back last =>
        rw [← List.cons_append, ← List.append_assoc] at heq
        obtain ⟨rfl, hlast⟩ := List.append_inj' heq rfl
        obtain rfl := List.singleton_inj.1 hlast
        obtain ⟨hback, hadded⟩ := List.forall_mem_append.1 hback
        exact .inr ⟨hadded added List.mem_cons_self, front, back, rfl, hback⟩
  · intro h
    rcases h with rfl | ⟨hname, front, back, rfl, hback⟩
    · exact ⟨listed, [], rfl, by simp⟩
    · refine ⟨front, back ++ [added], by simp, ?_⟩
      exact List.forall_mem_append.2 ⟨hback, List.forall_mem_singleton.2 hname⟩

/-- Of the tiles with a name the last is found. -/
theorem get?_ofList :
    (ofList listed).get? name = some tile ↔ IsLast listed tile ∧ tile.name = name := by
  induction listed using List.reverseRecOn with
  | nil => simp [ofList, empty, get?, IsLast]
  | append_singleton listed added ih =>
      rw [ofList_concat, get?_insert, isLast_concat]
      by_cases hname : added.name = name
      · rw [if_pos hname]
        constructor
        · intro h
          obtain rfl := Option.some.inj h
          exact ⟨.inl rfl, hname⟩
        · intro h
          obtain ⟨rfl | hother, hfound⟩ := h
          · rfl
          · exact absurd (hname.trans hfound.symm) hother.1
      · rw [if_neg hname, ih]
        constructor
        · intro h
          exact ⟨.inr ⟨fun hsame => hname (hsame.trans h.2), h.1⟩, h.2⟩
        · intro h
          obtain ⟨rfl | hother, hfound⟩ := h
          · exact absurd hfound hname
          · exact ⟨hother.2, hfound⟩

/-- A name that is kept is that of a tile. -/
theorem exists_get? (h : name ∈ (ofList listed).names.toList) :
    ∃ tile, (ofList listed).get? name = some tile := by
  have hcontains := contains_ofList.2 (mem_names.1 (Array.mem_toList_iff.1 h))
  rw [← Std.ExtTreeMap.isSome_getElem?_eq_contains] at hcontains
  exact Option.isSome_iff_exists.1 hcontains

/-- The tiles in order are found under their names. -/
theorem mem_toList :
    tile ∈ (ofList listed).toList ↔ (ofList listed).get? tile.name = some tile := by
  rw [toList, List.mem_filterMap]
  constructor
  · intro h
    obtain ⟨name, -, hfound⟩ := h
    rwa [(get?_ofList.1 hfound).2]
  · intro h
    refine ⟨tile.name, ?_, h⟩
    obtain ⟨⟨front, back, rfl, -⟩, -⟩ := get?_ofList.1 h
    rw [Array.mem_toList_iff, mem_names]
    simp [namesOf]

/-- The tiles in order have the names in order. -/
theorem namesOf_toList : namesOf (ofList listed).toList = (ofList listed).names.toList := by
  have hall (names : List String)
      (h : ∀ name ∈ names, ∃ tile, (ofList listed).get? name = some tile) :
      namesOf (names.filterMap (ofList listed).get?) = names := by
    induction names with
    | nil => rfl
    | cons name names ih =>
        obtain ⟨⟨tile, htile⟩, hnames⟩ := List.forall_mem_cons.1 h
        rw [List.filterMap_cons, htile]
        exact congrArg₂ List.cons (get?_ofList.1 htile).2 (ih hnames)
  exact hall _ fun name => exists_get?

end ConfigStream.Tiles
