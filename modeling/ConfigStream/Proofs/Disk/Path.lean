import ConfigStream.Disk.Path
import Mathlib.Data.List.TakeWhile

/-!
# Names in a path

A path that ends with the name of a file consists of the directory, the stem of the name, and an
ending, which is empty or a dot with the extension (`Path.Parts`). Another extension takes the place
of the ending and leaves the other parts (`Path.withExtension_cases`). The names that lead to the
file are those that lead to the directory and its own (`Path.exists_names`).
-/

namespace ConfigStream.Path

variable {directory name : List Char}

/-- A text is cut after the last place where a character stands. -/
theorem cut_last (c : Char) (text : List Char) :
    text = (text.reverse.dropWhile (· != c)).reverse ++
        (text.reverse.takeWhile (· != c)).reverse ∧
      (∀ d ∈ (text.reverse.dropWhile (· != c)).head?, d = c) ∧
      c ∉ (text.reverse.takeWhile (· != c)).reverse := by
  refine ⟨?_, fun d hd => ?_, fun hmem => ?_⟩
  · rw [← List.reverse_append, List.takeWhile_append_dropWhile, List.reverse_reverse]
  · have hhead := List.head?_dropWhile_not (· != c) text.reverse
    rw [Option.mem_def.1 hd] at hhead
    simpa using hhead
  · have hother := List.mem_takeWhile_imp (List.mem_reverse.1 hmem)
    simp at hother

/-! ## Names between slashes -/

/-- The characters between the slashes of a path. -/
def pieces (path : List Char) : List (List Char) :=
  path.foldr
    (fun c pieces =>
      if c = '/' then [] :: pieces
      else match pieces with
        | piece :: rest => (c :: piece) :: rest
        | [] => [[c]])
    [[]]

theorem names_eq (path : String) : names path = (pieces path.toList).map String.ofList := rfl

theorem pieces_cons (c : Char) (path : List Char) :
    pieces (c :: path) =
      if c = '/' then [] :: pieces path
      else match pieces path with
        | piece :: rest => (c :: piece) :: rest
        | [] => [[c]] := rfl

theorem pieces_ne_nil (path : List Char) : pieces path ≠ [] := by
  cases path with
  | nil => exact List.cons_ne_nil _ _
  | cons c path =>
      rw [pieces_cons]
      split
      · exact List.cons_ne_nil _ _
      · split <;> exact List.cons_ne_nil _ _

/-- The pieces before and after a slash. -/
theorem pieces_append (front back : List Char) :
    pieces (front ++ '/' :: back) = pieces front ++ pieces back := by
  induction front with
  | nil => rfl
  | cons c front ih =>
      rw [List.cons_append, pieces_cons, pieces_cons, ih]
      obtain ⟨piece, rest, hpieces⟩ := List.exists_cons_of_ne_nil (pieces_ne_nil front)
      rw [hpieces]
      split <;> rfl

/-- A name without slashes is one piece. -/
theorem pieces_of_noSlash (h : '/' ∉ name) : pieces name = [name] := by
  induction name with
  | nil => rfl
  | cons c name ih =>
      have hc : c ≠ '/' := (List.ne_of_not_mem_cons h).symm
      rw [pieces_cons, if_neg hc, ih (List.not_mem_of_not_mem_cons h)]

/-- A directory in front of a name: nothing, or a path with the slash after it. -/
def IsDirectory (directory : List Char) : Prop :=
  directory = [] ∨ ∃ front, directory = front ++ ['/']

/-- Names in the same directory are reached in the same way, except for the last step. -/
theorem exists_names (h : IsDirectory directory) :
    ∃ above absolute, ∀ path : String, ∀ name, path.toList = directory ++ name → '/' ∉ name →
      names path = above ++ [String.ofList name] ∧ isAbsolute path = absolute := by
  rcases h with rfl | ⟨front, rfl⟩
  · refine ⟨[], false, fun path name hpath hname => ⟨?_, ?_⟩⟩
    · rw [names_eq, hpath, List.nil_append, pieces_of_noSlash hname]
      rfl
    · rw [isAbsolute, hpath, List.nil_append, beq_eq_false_iff_ne]
      exact fun hhead => hname (List.mem_of_mem_head? hhead)
  · refine ⟨(pieces front).map String.ofList, (front ++ ['/']).head? == some '/',
      fun path name hpath hname => ⟨?_, ?_⟩⟩
    · rw [names_eq, hpath, List.append_assoc, List.singleton_append, pieces_append,
        pieces_of_noSlash hname, List.map_append]
      rfl
    · rw [isAbsolute, hpath, List.head?_append, List.head?_append]
      cases front <;> rfl

/-! ## Extensions -/

/-- What may stand after the stem of a name: nothing, if no dot is in the name except in front, or a
dot and an extension without dots. -/
def IsEnding (stem ending : List Char) : Prop :=
  ending = [] ∧ '.' ∉ stem.tail ∨ ∃ extension, ending = '.' :: extension ∧ '.' ∉ extension

/-- The parts of a path that ends with the name of a file. -/
structure Parts (path : String) (directory stem ending : List Char) : Prop where
  toList_eq : path.toList = directory ++ (stem ++ ending)
  isDirectory : IsDirectory directory
  noSlash : '/' ∉ stem ++ ending
  stem_ne_nil : stem ≠ []
  isEnding : IsEnding stem ending

/-- A name is its stem and an ending. -/
theorem exists_ending (hname : name ≠ []) :
    stem name ≠ [] ∧ ∃ ending, name = stem name ++ ending ∧ IsEnding (stem name) ending := by
  obtain ⟨hsplit, hdot, hlast⟩ := cut_last '.' name
  unfold stem
  -- What counts is what stands up to the last dot, read backwards, and what stands after it.
  generalize name.reverse.dropWhile (· != '.') = before at hsplit hdot
  generalize (name.reverse.takeWhile (· != '.')).reverse = last at hsplit hlast
  match before with
  | [] =>
      obtain rfl : name = last := hsplit
      exact ⟨hname, [], (List.append_nil _).symm,
        .inl ⟨rfl, fun hmem => hlast (List.mem_of_mem_tail hmem)⟩⟩
  | [c] =>
      obtain rfl : name = c :: last := hsplit
      exact ⟨hname, [], (List.append_nil _).symm, .inl ⟨rfl, hlast⟩⟩
  | c :: d :: before =>
      obtain rfl : c = '.' := hdot c rfl
      refine ⟨by simp, '.' :: last, ?_, .inr ⟨last, rfl, hlast⟩⟩
      rw [hsplit]
      simp

/-- A path is a directory and a last name. -/
theorem exists_directory (path : String) :
    ∃ directory name, path.toList = directory ++ name ∧ IsDirectory directory ∧ '/' ∉ name ∧
      ∀ extension, withExtension path extension =
        if name = [] ∨ name = ['.'] ∨ name = ['.', '.'] then path
        else if stem name = ['.'] then String.ofList (directory ++ ['.', '.'])
        else String.ofList (directory ++ stem name) ++ "." ++ extension := by
  obtain ⟨hsplit, hslash, hname⟩ := cut_last '/' path.toList
  have htake : path.toList.take
      (path.length - (path.toList.reverse.takeWhile (· != '/')).reverse.length) =
        (path.toList.reverse.dropWhile (· != '/')).reverse := by
    have hlength := congrArg List.length hsplit
    rw [List.length_append, String.length_toList] at hlength
    rw [hlength, Nat.add_sub_cancel]
    exact (congrArg (List.take _) hsplit).trans List.take_left
  refine ⟨_, _, hsplit, ?_, hname, fun extension => ?_⟩
  · cases hbefore : path.toList.reverse.dropWhile (· != '/') with
    | nil => exact .inl rfl
    | cons c before =>
        obtain rfl : c = '/' := hslash c (by rw [hbefore]; rfl)
        exact .inr ⟨before.reverse, List.reverse_cons⟩
  · rw [← htake]
    rfl

/-- A path is a directory and a last name. If this is the name of a file, another extension takes
the place of the ending. Only a name like `..a` becomes that of the directory above. -/
theorem withExtension_cases (path : String) {extension : String}
    (hdot : '.' ∉ extension.toList) (hslash : '/' ∉ extension.toList) :
    ∃ directory name, path.toList = directory ++ name ∧ IsDirectory directory ∧ '/' ∉ name ∧
      (name ∈ [[], ['.'], ['.', '.']] ∨
        (withExtension path extension).toList = directory ++ ['.', '.'] ∨
        ∃ ending, Parts path directory (stem name) ending ∧
          Parts (withExtension path extension) directory (stem name)
            ('.' :: extension.toList)) := by
  obtain ⟨directory, name, hpath, hdirectory, hname, hextended⟩ := exists_directory path
  refine ⟨directory, name, hpath, hdirectory, hname, ?_⟩
  rw [hextended]
  split
  · rename_i hspecial
    exact .inl (by simpa using hspecial)
  · rename_i hfile
    split
    · exact .inr (.inl String.toList_ofList)
    · obtain ⟨hstem, ending, hending, hisEnding⟩ := exists_ending (not_or.1 hfile).1
      have hnoSlash : '/' ∉ stem name := fun hmem =>
        hname (hending ▸ List.mem_append_left ending hmem)
      refine .inr (.inr ⟨ending, ⟨hpath.trans (congrArg _ hending), hdirectory, hending ▸ hname,
        hstem, hisEnding⟩, ⟨?_, hdirectory, ?_, hstem, .inr ⟨_, rfl, hdot⟩⟩⟩)
      · simp
      · simp [hnoSlash, hslash]

end ConfigStream.Path
