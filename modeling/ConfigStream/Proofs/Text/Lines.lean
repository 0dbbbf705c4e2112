import ConfigStream.Proofs.Text.Fields
import ConfigStream.Text.Lines

/-!
# Lines of a listing

A text that is put together from lines, each followed by a line feed, has these lines again
(`Text.lines_flatMap`), and what its lines say is read line by line (`Text.map_text_entries`). The
first lines of a text are the lines of a text that it begins with (`Text.exists_lines_take`), so
that it can be ended before any line that says something (`Text.exists_endsBefore`).
-/

namespace ConfigStream.Text

/-! ## Lines -/

/-- A character that ends no line. -/
def IsInline (c : Char) : Prop := c ≠ '\n' ∧ c ≠ '\r'

instance (c : Char) : Decidable (IsInline c) := inferInstanceAs (Decidable (_ ∧ _))

theorem linesFrom_append {line : List Char} (h : '\n' ∉ line) (current : List Char)
    (done : Array (List Char)) (rest : List Char) :
    linesFrom current done (line ++ rest) = linesFrom (line.reverse ++ current) done rest := by
  induction line generalizing current with
  | nil => rfl
  | cons c line ih =>
      have hc : '\n' ≠ c := List.ne_of_not_mem_cons h
      rw [List.cons_append, linesFrom.eq_3 _ _ _ _ fun heq => hc heq.symm,
        ih (List.not_mem_of_not_mem_cons h),
        List.reverse_cons, List.append_assoc]
      rfl

/-- A line without a carriage return is finished as it is. -/
theorem finishLine_reverse {line : List Char} (h : ∀ c ∈ line, IsInline c) :
    finishLine line.reverse = line := by
  unfold finishLine
  split
  · rename_i rest heq
    have hmem : '\r' ∈ line := by
      rw [← List.mem_reverse, heq]
      exact List.mem_cons_self
    exact absurd rfl (h '\r' hmem).2
  · rw [List.reverse_reverse]

/-- Otherwise only a carriage return at its end is left out. -/
theorem finishLine_reverse_cases (line : List Char) :
    finishLine line.reverse = line ∨ finishLine line.reverse ++ ['\r'] = line := by
  unfold finishLine
  split
  · rename_i rest heq
    rw [← List.reverse_cons, ← heq, List.reverse_reverse]
    exact .inr rfl
  · exact .inl (List.reverse_reverse line)

theorem linesFrom_flatMap {lines : List (List Char)} (h : ∀ line ∈ lines, ∀ c ∈ line, IsInline c)
    (done : Array (List Char)) :
    linesFrom [] done (lines.flatMap fun line => line ++ ['\n']) = done.toList ++ lines := by
  induction lines generalizing done with
  | nil => simp [linesFrom]
  | cons line lines ih =>
      obtain ⟨hline, hlines⟩ := List.forall_mem_cons.1 h
      have hfeed : '\n' ∉ line := fun hmem => (hline '\n' hmem).1 rfl
      rw [List.flatMap_cons, List.append_assoc, linesFrom_append hfeed, List.append_nil,
        List.singleton_append, linesFrom, finishLine_reverse hline, ih hlines]
      simp

/-- Lines that are each followed by a line feed are the lines of the text. -/
theorem lines_flatMap {parts : List (List Char)} (h : ∀ line ∈ parts, ∀ c ∈ line, IsInline c) :
    lines (parts.flatMap fun line => line ++ ['\n']) = parts := by
  rw [lines, linesFrom_flatMap h]
  rfl

/-- A text that grows by what is written for each item ends with all of it, in order. -/
theorem toList_foldl {α : Type} {step : String → α → String} {written : α → List Char}
    (hstep : ∀ text item, (step text item).toList = text.toList ++ written item) (items : List α)
    (text : String) : (items.foldl step text).toList = text.toList ++ items.flatMap written := by
  induction items generalizing text with
  | nil => simp
  | cons item items ih =>
      rw [List.foldl_cons, ih, hstep, List.append_assoc, List.flatMap_cons]

/-! ## The first lines -/

/-- The lines that are done come first. -/
theorem linesFrom_eq (current : List Char) (done : Array (List Char)) (text : List Char) :
    linesFrom current done text = done.toList ++ linesFrom current #[] text := by
  induction text generalizing current done with
  | nil =>
      rw [linesFrom, linesFrom]
      cases current.isEmpty <;> simp
  | cons c text ih =>
      by_cases hc : c = '\n'
      · subst hc
        rw [linesFrom, linesFrom, ih, ih _ (#[].push _)]
        simp
      · rw [linesFrom.eq_3 _ _ _ _ fun heq => hc heq, linesFrom.eq_3 _ _ _ _ fun heq => hc heq, ih]

/-- A line ends at the first line feed. -/
theorem lines_append {line : List Char} (h : '\n' ∉ line) (rest : List Char) :
    lines (line ++ '\n' :: rest) = finishLine line.reverse :: lines rest := by
  rw [lines, linesFrom_append h, List.append_nil, linesFrom, linesFrom_eq]
  rfl

/-- Where a line ends, a text that begins with the others ends. -/
theorem exists_linesFrom_take (current text : List Char) (count : Nat) :
    ∃ front back, text = front ++ back ∧
      linesFrom current #[] front = (linesFrom current #[] text).take (count + 1) := by
  induction text generalizing current count with
  | nil =>
      refine ⟨[], [], rfl, ?_⟩
      rw [linesFrom]
      cases current.isEmpty <;> simp
  | cons c text ih =>
      by_cases hc : c = '\n'
      · subst hc
        have hline (rest : List Char) : linesFrom current #[] ('\n' :: rest) =
            finishLine current :: linesFrom [] #[] rest := by
          rw [linesFrom, linesFrom_eq]
          rfl
        cases count with
        | zero => exact ⟨['\n'], text, rfl, by simp [hline, linesFrom]⟩
        | succ count =>
            obtain ⟨front, back, rfl, hfront⟩ := ih [] count
            exact ⟨'\n' :: front, back, rfl, by simp [hline, hfront]⟩
      · have hsame (rest : List Char) :
            linesFrom current #[] (c :: rest) = linesFrom (c :: current) #[] rest :=
          linesFrom.eq_3 _ _ _ _ fun heq => hc heq
        obtain ⟨front, back, rfl, hfront⟩ := ih (c :: current) count
        exact ⟨c :: front, back, rfl, by rw [hsame, hsame, hfront]⟩

/-- The first lines of a text are those of a text that it begins with. -/
theorem exists_lines_take (text : List Char) (count : Nat) :
    ∃ front back, text = front ++ back ∧ lines front = (lines text).take count := by
  cases count with
  | zero => exact ⟨[], text, rfl, rfl⟩
  | succ count => exact exists_linesFrom_take [] text count

/-! ## What lines say -/

/-- What a line says, if it says something. -/
def said? (line : List Char) : Option String :=
  if (content line).isEmpty then none else some (String.ofList (content line))

/-- The entries of a text are what its lines say. -/
theorem map_text_entries (text : String) :
    (entries text).map Entry.text = (lines text.toList).filterMap said? := by
  have hsaid : (fun entry : List Char × Nat =>
      (if (content entry.1).isEmpty then none
        else some (⟨entry.2 + 1, String.ofList (content entry.1)⟩ : Entry)).map Entry.text) =
      said? ∘ Prod.fst := by
    funext entry
    rw [Function.comp_apply, said?]
    cases (content entry.1).isEmpty <;> rfl
  rw [entries, List.map_filterMap]
  refine (congrArg (List.filterMap · _) hsaid).trans ?_
  rw [← List.filterMap_map, List.zipIdx_map_fst]

/-- A line with neither blanks nor a comment says itself. -/
theorem said?_of_forall {line : List Char} (hne : line ≠ [])
    (h : ∀ c ∈ line, isBlank c = false ∧ c ≠ '#') : said? line = some (String.ofList line) := by
  have hcontent : content line = line := by
    have hnone : line.takeWhile (· != '#') = line := by
      rw [← List.append_nil line,
        List.takeWhile_append_of_pos fun c hc => bne_iff_ne.2 (h c hc).2, List.takeWhile_nil]
    rw [content, hnone, trim_of_forall fun c hc => (h c hc).1]
  rw [said?, hcontent, if_neg (by simp [hne])]

/-- A line that is a comment says nothing. -/
theorem said?_comment (comment : List Char) : said? ('#' :: comment) = none := rfl

/-- A line that says something has a first word. -/
theorem fields_ne_nil_of_mem_entries {text : String} {line : Entry} (h : line ∈ entries text) :
    fields line.text.toList ≠ [] := by
  have hmem : line.text ∈ (lines text.toList).filterMap said? :=
    map_text_entries text ▸ List.mem_map_of_mem h
  obtain ⟨raw, -, hsaid⟩ := List.mem_filterMap.1 hmem
  rw [said?] at hsaid
  split at hsaid
  · cases hsaid
  · rename_i hcontent
    rw [← Option.some.inj hsaid, String.toList_ofList]
    intro hnil
    have htrims : Trims _ (content raw) := trim_eq_iff.1 rfl
    cases hfirst : content raw with
    | nil => exact hcontent (by rw [hfirst]; rfl)
    | cons c rest =>
        rw [hfirst] at hnil htrims
        exact absurd (fields_eq_nil.1 hnil c List.mem_cons_self) (by simp [htrims.first c rfl])

/-- A part of a text that ends before one of the lines that say something. -/
structure EndsBefore (line : Entry) (text early : String) : Prop where
  begins : ∃ late, text = early ++ late
  entries_eq : ∃ after, entries text = entries early ++ line :: after

/-- A text has a part before each of its lines. -/
theorem exists_endsBefore {text : String} {before after : List Entry} {line : Entry}
    (h : entries text = before ++ line :: after) :
    ∃ early, EndsBefore line text early ∧ entries early = before := by
  obtain ⟨first, second, hsplit, hfirst, -⟩ := List.filterMap_eq_append_iff.1 h
  obtain ⟨front, back, hlines, rfl, -⟩ := List.zipIdx_eq_append_iff.1 hsplit
  obtain ⟨early, late, htext, hearly⟩ := exists_lines_take text.toList front.length
  rw [hlines, List.take_left] at hearly
  have hentries : entries (String.ofList early) = before := by
    rw [← hfirst, entries, String.toList_ofList, hearly]
  refine ⟨String.ofList early, ⟨⟨String.ofList late, ?_⟩, after, ?_⟩, hentries⟩
  · rw [← String.ofList_append, ← htext, String.ofList_toList]
  · rw [hentries, h]

end ConfigStream.Text
