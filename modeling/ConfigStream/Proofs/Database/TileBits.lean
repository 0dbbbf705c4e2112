import ConfigStream.Proofs.Database.Failing
import ConfigStream.Proofs.Database.TileList

/-!
# The bits of a tile

The bits of a tile are those of its runs in order. A tile bit has the place that stands at its
number among them (`BitRun.locateFrom?_eq_getElem?`), as long as positions stay below the limit of
64 bits. Where they do not, a bit that has a place still has that of a run
(`BitRun.mem_places_of_locateFrom?`). The runs of a tile list lie in frames, so no bit of its tiles
is refused for being outside a frame (`Tile.bits_located`).
-/

namespace ConfigStream

/-! ## Places -/

namespace BitRun

variable {runs : List BitRun} {base bit : Nat} {place : UInt32 × Nat}

/-- The places of the bits of a run, each a frame and a frame bit. -/
def places (run : BitRun) : List (UInt32 × Nat) :=
  (List.range' run.offset run.size).map fun index => (run.frame, index)

theorem length_places (run : BitRun) : run.places.length = run.size := by
  rw [places, List.length_map, List.length_range']

theorem getElem?_places (run : BitRun) (h : bit < run.size) :
    run.places[bit]? = some (run.frame, run.offset + bit) := by
  rw [places, List.getElem?_map, List.getElem?_range' h, Nat.one_mul]
  rfl

theorem mem_places {run : BitRun} :
    place ∈ run.places ↔
      place.1 = run.frame ∧ run.offset ≤ place.2 ∧ place.2 < run.offset + run.size := by
  obtain ⟨frame, index⟩ := place
  simp only [places, List.mem_map, List.mem_range'_1, Prod.mk.injEq]
  constructor
  · intro h
    obtain ⟨other, hother, rfl, rfl⟩ := h
    exact ⟨rfl, hother⟩
  · intro h
    exact ⟨index, h.2, h.1.symm, rfl⟩

/-- A bit is located at its number among the places of the runs, which begin at a base. -/
theorem locateFrom?_eq_getElem? (htotal : base + (runs.flatMap places).length < Text.limit64)
    (hruns : ∀ run ∈ runs, run.offset + run.size < Text.limit64) (hbase : base ≤ bit) :
    locateFrom? base runs bit = (runs.flatMap places)[bit - base]? := by
  induction runs generalizing base with
  | nil => rfl
  | cons run runs ih =>
      obtain ⟨hrun, hothers⟩ := List.forall_mem_cons.1 hruns
      rw [List.flatMap_cons, List.length_append, length_places] at htotal
      rw [locateFrom?, if_pos (by omega), List.flatMap_cons]
      by_cases hbit : bit < base + run.size
      · have hinside : bit - base < run.size := by omega
        rw [if_pos hbit, List.getElem?_append_left (by rwa [length_places]),
          getElem?_places run hinside]
        exact if_pos (by omega)
      · rw [if_neg hbit, ih (by omega) hothers (by omega),
          List.getElem?_append_right (by rw [length_places]; omega), length_places, Nat.sub_sub]

/-- A bit that is located is so at the place of a run, however many bits the runs have. -/
theorem mem_places_of_locateFrom? (h : locateFrom? base runs bit = some place)
    (hbase : base ≤ bit) : ∃ run ∈ runs, place ∈ run.places := by
  induction runs generalizing base with
  | nil => cases h
  | cons run runs ih =>
      rw [locateFrom?] at h
      split at h
      · split at h
        · dsimp only at h
          split at h
          · obtain rfl := Option.some.inj h
            exact ⟨run, List.mem_cons_self, mem_places.2 ⟨rfl, by dsimp only; omega⟩⟩
          · cases h
        · obtain ⟨other, hother, hplace⟩ := ih h (by omega)
          exact ⟨other, List.mem_cons_of_mem _ hother, hplace⟩
      · cases h

end BitRun

/-! ## Tiles -/

namespace Tile

variable {tile : Tile} {bit : Nat} {place : UInt32 × Nat}

/-- The places of the bits of a tile in order. -/
def places (tile : Tile) : List (UInt32 × Nat) := tile.runs.flatMap BitRun.places

theorem bitCount_eq_length (tile : Tile) : tile.bitCount = tile.places.length := by
  have hcount (start : Nat) (runs : List BitRun) :
      runs.foldl (fun count run => count + run.size) start =
        start + (runs.flatMap BitRun.places).length := by
    induction runs generalizing start with
    | nil => rfl
    | cons run runs ih =>
        rw [List.foldl_cons, ih, List.flatMap_cons, List.length_append, BitRun.length_places,
          Nat.add_assoc]
  exact (hcount 0 tile.runs).trans (Nat.zero_add _)

/-- A tile bit has the place at its number, where the positions of the tile's bits and of the frame
bits of its runs fit into 64 bits. -/
theorem locate?_eq_getElem? (htotal : tile.bitCount < Text.limit64)
    (hruns : ∀ run ∈ tile.runs, run.offset + run.size < Text.limit64) (bit : Nat) :
    tile.locate? bit = tile.places[bit]? := by
  rw [bitCount_eq_length] at htotal
  exact BitRun.locateFrom?_eq_getElem? (by rwa [Nat.zero_add]) hruns (Nat.zero_le bit)

/-- A tile bit is located in a frame if the runs of the tile lie in frames. -/
theorem lt_bitCount_of_locate? (hfits : ∀ run ∈ tile.runs, run.offset + run.size ≤ Frame.bitCount)
    (h : tile.locate? bit = some place) : place.2 < Frame.bitCount := by
  obtain ⟨run, hrun, hplace⟩ := BitRun.mem_places_of_locateFrom? h (Nat.zero_le bit)
  exact Nat.lt_of_lt_of_le (BitRun.mem_places.1 hplace).2.2 (hfits run hrun)

end Tile

/-! ## Setting a tile bit -/

namespace FrameMemory

variable {memory filled : FrameMemory} {tile : Tile} {bit : Nat} {fault : DatabaseFault}

/-- A bit of a tile in frames cannot be set if it has no place or there is no frame at its place. -/
theorem assignTileBit_eq_error_of_fits
    (hfits : ∀ run ∈ tile.runs, run.offset + run.size ≤ Frame.bitCount) :
    memory.assignTileBit tile bit = .error fault ↔
      (tile.locate? bit = none ∧ fault = .badTileBit tile.name bit) ∨
      ∃ place, tile.locate? bit = some place ∧ memory.contains place.1 = false ∧
        fault = .refused (.noFrame place.1) := by
  rw [assignTileBit_eq_error]
  refine or_congr_right (exists_congr fun place => and_congr_right fun hplace => ?_)
  have hinside := Tile.lt_bitCount_of_locate? hfits hplace
  simp only [setBit_eq_error, Nat.not_le_of_lt hinside, hinside, false_and, true_and, false_or]
  constructor
  · intro h
    obtain ⟨refusal, ⟨hframe, rfl⟩, hfault⟩ := h
    exact ⟨hframe, hfault⟩
  · intro h
    exact ⟨.noFrame place.1, ⟨h.1, rfl⟩, h.2⟩

/-- A bit of a tile in frames is set if and only if there is a frame at its place. The memory then
has that bit besides its own, and no other. -/
theorem assignTileBit_eq_ok_of_fits
    (hfits : ∀ run ∈ tile.runs, run.offset + run.size ≤ Frame.bitCount) :
    memory.assignTileBit tile bit = .ok filled ↔
      ∃ place, tile.locate? bit = some place ∧ memory.contains place.1 = true ∧
        (∀ address, filled.contains address = memory.contains address) ∧
        ∀ address index, filled.isSet address index = true ↔
          memory.isSet address index = true ∨ (address, index) = place := by
  rw [assignTileBit_eq_ok]
  refine exists_congr fun place => and_congr_right fun hplace => ?_
  have hinside := Tile.lt_bitCount_of_locate? hfits hplace
  rw [← setBits_singleton, setBits_eq_ok]
  simp only [List.mem_singleton, forall_eq, hinside, true_and]

end FrameMemory

/-- The bits of a tile are those of its runs one after the other: a tile bit is located at the place
with its number, and nowhere from the number of bits on. A bit of a tile from a tile list cannot be
set only if it has no place, or there is no frame at its place; it is never outside a frame.
Otherwise exactly the bit at its place is set. -/
theorem Tile.bits_located :
    (∀ tile : Tile, tile.bitCount < Text.limit64 →
      (∀ run ∈ tile.runs, run.offset + run.size < Text.limit64) → ∀ bit,
        tile.locate? bit = tile.places[bit]? ∧
        (tile.locate? bit = none ↔ tile.bitCount ≤ bit)) ∧
    ∀ path text tiles, Tiles.parse path text = .ok tiles → ∀ tile ∈ tiles.toList,
      ∀ (memory : FrameMemory) bit,
        (∀ fault, memory.assignTileBit tile bit = .error fault ↔
          (tile.locate? bit = none ∧ fault = .badTileBit tile.name bit) ∨
          ∃ place, tile.locate? bit = some place ∧ memory.contains place.1 = false ∧
            fault = .refused (.noFrame place.1)) ∧
        ∀ filled, memory.assignTileBit tile bit = .ok filled ↔
          ∃ place, tile.locate? bit = some place ∧ memory.contains place.1 = true ∧
            (∀ address, filled.contains address = memory.contains address) ∧
            ∀ address index, filled.isSet address index = true ↔
              memory.isSet address index = true ∨ (address, index) = place := by
  constructor
  · intro tile htotal hruns bit
    have hlocate := tile.locate?_eq_getElem? htotal hruns bit
    refine ⟨hlocate, ?_⟩
    rw [hlocate, List.getElem?_eq_none_iff, bitCount_eq_length]
  · intro path text tiles hread tile htile memory bit
    have hfits := ((Tiles.means_of_parse hread).said tile htile).fits
    exact ⟨fun _ => FrameMemory.assignTileBit_eq_error_of_fits hfits,
      fun _ => FrameMemory.assignTileBit_eq_ok_of_fits hfits⟩

/-- A tile with an empty run and two runs that share a bit, in a memory without one of its
frames. -/
theorem Tile.bits_located_shared :
    let text := ".tile T CELL 0 0\nframe 2 at 2974 for 2\nframe 3 at 0 for 0\n" ++
      "frame 4 at 0 for 1\nframe 2 at 2975 for 1\n"
    let tile : Tile := ⟨"T", "CELL", 0, 0, [⟨2, 2974, 2⟩, ⟨3, 0, 0⟩, ⟨4, 0, 1⟩, ⟨2, 2975, 1⟩]⟩
    let memory := FrameMemory.ofAddresses [2]
    (tile.locate? 3 = some (2, 2975) ∧ tile.locate? 4 = none) ∧
    ∃ tiles, Tiles.parse "tiles.txt" text = .ok tiles ∧ tile ∈ tiles.toList ∧
      memory.assignTileBit tile 2 = .error (.refused (.noFrame 4)) ∧
      memory.assignTileBit tile 4 = .error (.badTileBit "T" 4) ∧
      ∃ filled, memory.assignTileBit tile 3 = .ok filled ∧
        filled.isSet 2 2975 = true ∧ filled.isSet 2 2974 = false := by
  intro text tile memory
  obtain ⟨hlocated, hassigned⟩ := Tile.bits_located
  have htile := hlocated tile (by decide) (by decide)
  have hthird : tile.locate? 3 = some (2, 2975) := (htile 3).1
  have hfourth : tile.locate? 4 = none := (htile 4).2.2 (by decide)
  have hlist : (Tiles.parse "tiles.txt" text).map Tiles.toList = .ok [tile] := by decide +kernel
  obtain ⟨tiles, hread, htiles⟩ := Except.map_eq_ok.1 hlist
  have hmem : tile ∈ tiles.toList := htiles ▸ List.mem_cons_self
  have hbits := hassigned "tiles.txt" text tiles hread tile hmem memory
  obtain ⟨filled, hfilled⟩ : ∃ filled, memory.assignTileBit tile 3 = .ok filled := ⟨_, rfl⟩
  obtain ⟨place, hplace, -, -, hset⟩ := ((hbits 3).2 filled).1 hfilled
  obtain rfl : (2, 2975) = place := Option.some.inj (hthird.symm.trans hplace)
  refine ⟨⟨hthird, hfourth⟩, tiles, hread, hmem, ?_, ?_, filled, hfilled, ?_, ?_⟩
  · exact ((hbits 2).1 _).2 (.inr ⟨(4, 0), (htile 2).1, by decide +kernel, rfl⟩)
  · exact ((hbits 4).1 _).2 (.inl ⟨hfourth, rfl⟩)
  · exact (hset 2 2975).2 (.inr rfl)
  · have hclear : memory.isSet 2 2974 = false := by decide +kernel
    rw [Bool.eq_false_iff, ne_eq, hset 2 2974, hclear]
    decide

end ConfigStream
