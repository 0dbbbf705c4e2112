import ConfigStream.Database.Basic
import ConfigStream.Proofs.Frame.Order
import ConfigStream.Proofs.Steps

/-!
# The frames of a device

A list of all frames that is read with every line checked is the list that is read without
(`AddressSet.parse_of_parseStrict`). A database is loaded from its frame list and its tile list
(`Database.load_eq_ok`), so whoever reads the frame list of one that has been loaded gets the order
of the database (`Database.read_frameOrder`).
-/

namespace ConfigStream

theorem Files.readInput_eq_ok {files : Files} {path text : String} :
    files.readInput path = .ok text ↔ files.readText path = .ok text := by
  rw [Files.readInput]
  cases files.readText path <;> simp

namespace AddressSet

/-- Where a strict reading has not failed, it has added the address of every line. -/
theorem mem_foldlM {path : String} {lines : List Text.Entry} {start addresses : AddressSet}
    (h : (lines.foldlM
        (fun addresses line =>
          match Text.leadingHex? line.text.toList with
          | some address => .ok (addresses.insert address)
          | none => .error (.malformed path line.number (.address line.text)))
        start : Except DatabaseFault AddressSet) = .ok addresses) (address : UInt32) :
    address ∈ addresses ↔ address ∈ start ∨
      address ∈ lines.filterMap fun line => Text.leadingHex? line.text.toList := by
  induction lines generalizing start with
  | nil =>
      obtain rfl : start = addresses := Except.ok.inj h
      simp
  | cons line lines ih =>
      rw [List.foldlM_cons] at h
      obtain ⟨next, hnext, hrest⟩ := Except.bind_eq_ok.1 h
      cases hline : Text.leadingHex? line.text.toList with
      | none =>
          rw [hline] at hnext
          cases hnext
      | some listed =>
          rw [hline] at hnext
          obtain rfl := Except.ok.inj hnext
          rw [ih hrest, List.filterMap_cons, hline, Std.ExtTreeSet.mem_insert,
            Std.compare_eq_iff_eq, List.mem_cons, eq_comm (a := listed), or_assoc, or_left_comm]

/-- A list with an address on every line is read alike whether or not its lines are checked. -/
theorem parse_of_parseStrict {path text : String} {addresses : AddressSet}
    (h : parseStrict path text = .ok addresses) : parse text = addresses := by
  apply Std.ExtTreeSet.ext_mem
  intro address
  rw [mem_foldlM h, parse, ofAddresses, Std.ExtTreeSet.mem_ofList, List.contains_iff_mem]
  simp

theorem read_eq_ok {files : Files} {path : String} {addresses : AddressSet} :
    AddressSet.read files path = .ok addresses ↔
      ∃ text, files.readText path = .ok text ∧ AddressSet.parse text = addresses := by
  rw [AddressSet.read, Except.map_eq_ok]
  simp only [Files.readInput_eq_ok]

theorem mem_frameAddresses {addresses : AddressSet} {address : UInt32} :
    address ∈ addresses.frameAddresses ↔ address ∈ addresses ∧ address ≠ endOfConfiguration := by
  rw [frameAddresses, List.mem_filter, Std.ExtTreeSet.mem_toList, bne_iff_ne]

/-- The addresses that frames can have are ascending. -/
theorem frameAddresses_pairwise (addresses : AddressSet) :
    addresses.frameAddresses.Pairwise (· < ·) := by
  apply List.Pairwise.filter
  exact addresses.ordered_toList.imp Std.compare_eq_lt.1

end AddressSet

namespace Database

variable {files : Files} {root : String} {database : Database}

/-- A directory is loaded if and only if its frame list and its tile list are read. -/
theorem load_eq_ok :
    load files root = .ok database ↔
      ∃ text, files.readText (framesPath root) = .ok text ∧
      ∃ frames, AddressSet.parseStrict (framesPath root) text = .ok frames ∧
      ∃ tileText, files.readText (tilesPath root) = .ok tileText ∧
      ∃ tiles, Tiles.parse (tilesPath root) tileText = .ok tiles ∧
        ⟨root, frames, tiles, ∅⟩ = database := by
  constructor
  · intro h
    obtain ⟨text, htext, h⟩ := Except.bind_eq_ok.1 h
    obtain ⟨frames, hframes, h⟩ := Except.bind_eq_ok.1 h
    obtain ⟨tileText, htileText, h⟩ := Except.bind_eq_ok.1 h
    obtain ⟨tiles, htiles, h⟩ := Except.bind_eq_ok.1 h
    exact ⟨text, Files.readInput_eq_ok.1 htext, frames, hframes, tileText,
      Files.readInput_eq_ok.1 htileText, tiles, htiles, Except.ok.inj h⟩
  · intro h
    obtain ⟨text, htext, frames, hframes, tileText, htileText, tiles, htiles, rfl⟩ := h
    rw [load, Files.readInput_eq_ok.2 htext, Files.readInput_eq_ok.2 htileText]
    simp only [bind, Except.bind, hframes, htiles, pure, Except.pure]

/-- A device is that of its directory, and its frames are those of the frame list there. -/
theorem frames_of_load (h : load files root = .ok database) :
    database.root = root ∧ ∃ text, files.readText (framesPath root) = .ok text ∧
      AddressSet.parse text = database.frames := by
  obtain ⟨text, htext, frames, hframes, _, -, _, -, rfl⟩ := load_eq_ok.1 h
  exact ⟨rfl, text, htext, AddressSet.parse_of_parseStrict hframes⟩

/-- The frame list of a loaded database gives the order of the database. -/
theorem read_frameOrder (h : load files root = .ok database) :
    FrameOrder.read files (framesPath root) = .ok database.frameOrder := by
  obtain ⟨-, text, htext, hframes⟩ := frames_of_load h
  rw [FrameOrder.read, AddressSet.read_eq_ok.2 ⟨text, htext, hframes⟩]
  rfl

end Database

end ConfigStream
