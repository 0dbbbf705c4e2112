import ConfigStream.Disk.Basic
import ConfigStream.Proofs.Disk.Path
import ConfigStream.Proofs.Steps

/-!
# Files that are written

A file is written where its path leads to: in a directory, under the last name of the path
(`Disk.exists_of_write`). It is read back, and every other file stays as it is. What leads somewhere
before a file is written leads there afterwards, since there are the same directories
(`Disk.locate_of_directories_eq`).
-/

namespace ConfigStream.Disk

variable {disk after : Disk} {here place : Location} {name path : String} {names : List String}
  {contents : List UInt8}

/-! ## Where paths lead to -/

/-- What a name leads to from a directory. -/
theorem follow_eq_ok : disk.follow here name = .ok place ↔
    disk.isDirectory here = true ∧
      if name = "" ∨ name = "." then place = here
      else if name = ".." then place = parent here
      else name.utf8ByteSize ≤ nameLimit ∧ place = here ++ [name] := by
  unfold follow
  cases disk.isDirectory here with
  | false => cases (disk.files.lookup here).isSome <;> simp
  | true =>
      simp only [if_true, true_and, Bool.or_eq_true, String.isEmpty_iff, beq_iff_eq]
      split
      · rw [Except.ok.injEq, eq_comm]
      · split
        · rw [Except.ok.injEq, eq_comm]
        · split <;> simp_all [eq_comm]

/-- A path that leads somewhere leads there name by name. -/
theorem locate_eq_ok : disk.locate path names = .ok place ↔
    path.toList.contains '\x00' = false ∧ path.isEmpty = false ∧ path.utf8ByteSize < pathLimit ∧
      names.foldlM disk.follow (origin path) = .ok place := by
  unfold locate
  cases path.toList.contains '\x00' with
  | true => simp
  | false =>
      cases path.isEmpty with
      | true => simp
      | false =>
          by_cases hsize : path.utf8ByteSize < pathLimit
          · simp [hsize]
          · simp [hsize]

/-- Where names lead to depends on the directories only. -/
theorem foldlM_follow_of_directories_eq (h : after.directories = disk.directories)
    (hfold : names.foldlM disk.follow here = .ok place) :
    names.foldlM after.follow here = .ok place := by
  have hdirectory (location : Location) :
      after.isDirectory location = disk.isDirectory location := by
    rw [isDirectory, isDirectory, h]
  induction names generalizing here with
  | nil => exact hfold
  | cons name names ih =>
      rw [List.foldlM_cons, Except.bind_eq_ok] at hfold ⊢
      obtain ⟨next, hnext, hrest⟩ := hfold
      refine ⟨next, ?_, ih hrest⟩
      rw [follow_eq_ok, hdirectory, ← follow_eq_ok]
      exact hnext

theorem locate_of_directories_eq (h : after.directories = disk.directories)
    (hlocate : disk.locate path names = .ok place) : after.locate path names = .ok place := by
  obtain ⟨hzero, hempty, hsize, hfold⟩ := locate_eq_ok.1 hlocate
  exact locate_eq_ok.2 ⟨hzero, hempty, hsize, foldlM_follow_of_directories_eq h hfold⟩

/-! ## Directories above -/

/-- A location that names can lead to: some levels up, or the root, and from there by names from
directory to directory. -/
inductive Descends (disk : Disk) : Location → Prop where
  | above (levels : Nat) : Descends disk (List.replicate levels "..")
  | root : Descends disk ["/"]
  | child {here : Location} {name : String} (h : Descends disk here)
      (hdirectory : disk.isDirectory here = true) (hname : name ≠ "..") :
      Descends disk (here ++ [name])

theorem isDirectory_replicate (disk : Disk) (levels : Nat) :
    disk.isDirectory (List.replicate levels "..") = true := by
  simp [isDirectory]

theorem parent_replicate (levels : Nat) :
    parent (List.replicate levels "..") = List.replicate (levels + 1) ".." := by
  cases levels with
  | zero => rfl
  | succ levels =>
      simp only [List.replicate_succ', parent, List.getLast?_concat]

theorem parent_concat (here : Location) (hname : name ≠ "..") :
    parent (here ++ [name]) = if name = "/" then here ++ [name] else here := by
  simp only [parent, List.getLast?_concat, List.dropLast_concat]
  by_cases hroot : name = "/"
  · simp [hroot]
  · simp [hroot]

/-- Above a directory that names lead to there is a directory. -/
theorem Descends.parent (h : Descends disk here) (hdirectory : disk.isDirectory here = true) :
    Descends disk (parent here) ∧ disk.isDirectory (Disk.parent here) = true := by
  cases h with
  | above levels =>
      rw [parent_replicate]
      exact ⟨.above _, isDirectory_replicate disk _⟩
  | root => exact ⟨.root, hdirectory⟩
  | child hhere hparent hname =>
      rw [parent_concat _ hname]
      split
      · exact ⟨.child hhere hparent hname, hdirectory⟩
      · exact ⟨hhere, hparent⟩

/-- Names lead down from where a path starts. -/
theorem descends_of_foldlM (h : Descends disk here)
    (hfold : names.foldlM disk.follow here = .ok place) : Descends disk place := by
  induction names generalizing here with
  | nil => exact Except.ok.inj hfold ▸ h
  | cons name names ih =>
      rw [List.foldlM_cons, Except.bind_eq_ok] at hfold
      obtain ⟨next, hnext, hrest⟩ := hfold
      refine ih ?_ hrest
      obtain ⟨hdirectory, hname⟩ := follow_eq_ok.1 hnext
      split at hname
      · exact hname ▸ h
      · split at hname
        · exact hname ▸ (h.parent hdirectory).1
        · rename_i hother
          exact hname.2 ▸ .child h hdirectory hother

theorem descends_origin (disk : Disk) (path : String) : Descends disk (origin path) := by
  unfold origin
  split
  · exact .root
  · exact .above 0

/-- Names that lead to no directory end with that of a file. -/
theorem exists_of_not_isDirectory {above : List String}
    (hlocate : disk.locate path (above ++ [name]) = .ok place)
    (hfile : disk.isDirectory place = false) :
    name ∉ ["", ".", ".."] ∧ ∃ here, above.foldlM disk.follow (origin path) = .ok here ∧
      place = here ++ [name] := by
  obtain ⟨-, -, -, hfold⟩ := locate_eq_ok.1 hlocate
  rw [List.foldlM_append, Except.bind_eq_ok] at hfold
  obtain ⟨here, hhere, hlast⟩ := hfold
  have hdescends := descends_of_foldlM (descends_origin disk path) hhere
  rw [List.foldlM_cons, Except.bind_eq_ok] at hlast
  obtain ⟨_, hfollow, hplace⟩ := hlast
  obtain rfl := Except.ok.inj hplace
  obtain ⟨hdirectory, hname⟩ := follow_eq_ok.1 hfollow
  split at hname
  · rw [hname, hdirectory] at hfile
    cases hfile
  · split at hname
    · rw [hname, (hdescends.parent hdirectory).2] at hfile
      cases hfile
    · rename_i hplain habove
      have hspecial : name ∉ ["", ".", ".."] := by simp [not_or.1 hplain, habove]
      exact ⟨hspecial, here, hhere, hname.2⟩

/-- Paths with the same directory that lead to files lead to the same location but for the last
name. -/
theorem exists_siblings {directory first second : List Char} {other : String} {sibling : Location}
    (hdirectory : Path.IsDirectory directory)
    (hpath : path.toList = directory ++ first) (hfirst : '/' ∉ first)
    (hother : other.toList = directory ++ second) (hsecond : '/' ∉ second)
    (hlocate : disk.locate path (Path.names path) = .ok place)
    (hplace : disk.isDirectory place = false)
    (hfollow : disk.locate other (Path.names other) = .ok sibling)
    (hsibling : disk.isDirectory sibling = false) :
    String.ofList first ∉ ["", ".", ".."] ∧ String.ofList second ∉ ["", ".", ".."] ∧
      ∃ here, place = here ++ [String.ofList first] ∧ sibling = here ++ [String.ofList second] := by
  obtain ⟨above, absolute, hnames⟩ := Path.exists_names hdirectory
  obtain ⟨hpathNames, hpathStart⟩ := hnames path first hpath hfirst
  obtain ⟨hotherNames, hotherStart⟩ := hnames other second hother hsecond
  have hstart : origin other = origin path := by rw [origin, origin, hpathStart, hotherStart]
  rw [hpathNames] at hlocate
  rw [hotherNames] at hfollow
  obtain ⟨hplain, here, hhere, rfl⟩ := exists_of_not_isDirectory hlocate hplace
  obtain ⟨hplain', here', hhere', rfl⟩ := exists_of_not_isDirectory hfollow hsibling
  obtain rfl : here = here' := Except.ok.inj (hhere.symm.trans (hstart ▸ hhere'))
  exact ⟨hplain, hplain', here, rfl, rfl⟩

/-! ## Writing and reading -/

@[simp]
theorem directories_put (disk : Disk) (place : Location) (contents : List UInt8) :
    (disk.put place contents).directories = disk.directories := rfl

@[simp]
theorem isDirectory_put (disk : Disk) (place : Location) (contents : List UInt8)
    (location : Location) :
    (disk.put place contents).isDirectory location = disk.isDirectory location := rfl

/-- A file that is put at a place is there. -/
theorem lookup_put (disk : Disk) (place : Location) (contents : List UInt8) :
    (disk.put place contents).files.lookup place = some contents := by
  rw [put, List.lookup_cons_self]

/-- What is at any other place stays. -/
theorem lookup_put_of_ne {other : Location} (h : other ≠ place) :
    (disk.put place contents).files.lookup other = disk.files.lookup other := by
  have hother : (other == place) = false := beq_eq_false_iff_ne.2 h
  rw [put, List.lookup_cons, hother]
  show (disk.files.filter (·.1 != place)).lookup other = _
  induction disk.files with
  | nil => rfl
  | cons file files ih =>
      by_cases hfile : file.1 = place
      · rw [List.filter_cons_of_neg (by simp [hfile]), ih, List.lookup_cons, hfile, hother]
      · rw [List.filter_cons_of_pos (by simp [hfile]), List.lookup_cons, List.lookup_cons, ih]

/-- A file is written where its path leads to, which is no directory. -/
theorem exists_of_write (h : disk.write path contents = .ok after) :
    ∃ place, disk.locate path (Path.names path) = .ok place ∧ disk.isDirectory place = false ∧
      after = disk.put place contents := by
  simp only [write] at h
  split at h
  · split at h <;> cases h
  · split at h
    · cases h
    · rename_i place hplace
      split at h
      · cases h
      · rename_i hfile
        exact ⟨place, hplace, Bool.eq_false_iff.2 hfile, (Except.ok.inj h).symm⟩

theorem locate_put (contents : List UInt8) {other : Location}
    (h : disk.locate path names = .ok place) :
    (disk.put other contents).locate path names = .ok place :=
  locate_of_directories_eq (directories_put disk other contents) h

/-- A file that is written is read. -/
theorem read_put (hlocate : disk.locate path (Path.names path) = .ok place)
    (hfile : disk.isDirectory place = false) :
    (disk.put place contents).read path = .ok contents := by
  simp [read, locate_put contents hlocate, hfile, lookup_put]

/-- Other files are read as before. -/
theorem read_put_of_ne (hlocate : disk.locate path (Path.names path) = .ok place)
    {other : Location} (h : place ≠ other) :
    (disk.put other contents).read path = disk.read path := by
  simp [read, locate_put contents hlocate, hlocate, lookup_put_of_ne h]

end ConfigStream.Disk
