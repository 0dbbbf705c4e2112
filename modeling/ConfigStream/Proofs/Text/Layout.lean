import ConfigStream.Proofs.Text.Lines

/-!
# The layout of a text

What a text says does not depend on how it is laid out. Lines that say nothing may be inserted,
blanks may stand at the ends of a line, a comment may follow it, and lines may end with a carriage
return (`Text.Relaid`): the entries stay the same, and their numbers grow by the lines inserted
before them (`Text.Relaid.entries_eq`). A line is what stands between two line feeds; the carriage
return before a line feed is a blank at its end.
-/

namespace ConfigStream.Text

variable {line inner front back : List Char} {lines others before after : List (List Char)}
  {count : Nat} {inserted : Nat → Nat}

/-! ## What a line says -/

/-- Blanks at the ends of a text are trimmed off with its own. -/
theorem trim_pad (hfront : ∀ c ∈ front, isBlank c = true) (hback : ∀ c ∈ back, isBlank c = true) :
    trim (front ++ line ++ back) = trim line := by
  have h := trim_eq_iff.1 (rfl : trim line = trim line)
  obtain ⟨left, right, hline, hleft, hright⟩ := h.around
  apply trim_eq_iff.2
  refine ⟨⟨front ++ left, right ++ back, ?_, ?_, ?_⟩, h.first, h.last⟩
  · calc
      front ++ line ++ back = front ++ (left ++ trim line ++ right) ++ back := by rw [← hline]
      _ = front ++ left ++ trim line ++ (right ++ back) := by simp only [List.append_assoc]
  · exact List.forall_mem_append.2 ⟨hfront, hleft⟩
  · exact List.forall_mem_append.2 ⟨hright, hback⟩

/-- A line that is blank, or a comment after blanks. -/
def IsIdle (line : List Char) : Prop :=
  ∃ blanks, (∀ c ∈ blanks, isBlank c = true) ∧
    (line = blanks ∨ ∃ comment, line = blanks ++ '#' :: comment)

/-- No blank begins a comment. -/
theorem ne_hash_of_isBlank {c : Char} (h : isBlank c = true) : (c != '#') = true := by
  apply bne_iff_ne.2
  intro heq
  subst heq
  exact absurd h (by decide)

/-- What stands before the comment of an idle line is blank. -/
theorem IsIdle.isBlank_of_mem (h : IsIdle line) :
    ∀ c ∈ line.takeWhile (· != '#'), isBlank c = true := by
  obtain ⟨blanks, hblanks, heq⟩ := h
  have htake (rest : List Char) (hrest : rest.takeWhile (· != '#') = []) :
      (blanks ++ rest).takeWhile (· != '#') = blanks := by
    rw [List.takeWhile_append_of_pos fun c hc => ne_hash_of_isBlank (hblanks c hc), hrest,
      List.append_nil]
  cases heq with
  | inl heq =>
      rw [heq, ← List.append_nil blanks, htake [] rfl]
      exact hblanks
  | inr heq =>
      obtain ⟨comment, rfl⟩ := heq
      rw [htake ('#' :: comment) rfl]
      exact hblanks

/-- Neither blanks in front of a line count, nor what is idle at its end. -/
theorem content_around (hfront : ∀ c ∈ front, isBlank c = true) (hback : IsIdle back) :
    content (front ++ line ++ back) = content line := by
  rw [content, List.append_assoc,
    List.takeWhile_append_of_pos fun c hc => ne_hash_of_isBlank (hfront c hc),
    List.takeWhile_append]
  split
  · -- The line has no comment, so that its end is looked at.
    rename_i hlength
    have hwhole : line.takeWhile (· != '#') = line :=
      (List.takeWhile_prefix _).eq_of_length hlength
    rw [← List.append_assoc, trim_pad hfront hback.isBlank_of_mem, content, hwhole]
  · rw [← List.append_nil (front ++ _), trim_pad hfront (by simp), content]

/-- So the line says the same. -/
theorem said?_around (hfront : ∀ c ∈ front, isBlank c = true) (hback : IsIdle back) :
    said? (front ++ line ++ back) = said? line := by
  rw [said?, content_around hfront hback, said?]

theorem said?_append_idle (line : List Char) (hback : IsIdle back) :
    said? (line ++ back) = said? line :=
  @said?_around line [] back (by simp) hback

/-- An idle line says nothing. -/
theorem said?_of_isIdle (h : IsIdle line) : said? line = none :=
  said?_append_idle [] h

/-- A carriage return at the end of a line does not count. -/
theorem said?_concat_return (line : List Char) : said? (line ++ ['\r']) = said? line :=
  said?_append_idle line ⟨['\r'], List.forall_mem_singleton.2 rfl, .inl rfl⟩

theorem said?_finishLine (line : List Char) : said? (finishLine line.reverse) = said? line := by
  unfold finishLine
  split
  · rename_i rest heq
    have hline : line = rest.reverse ++ ['\r'] := by
      rw [← List.reverse_reverse line, heq, List.reverse_cons]
    rw [hline, said?_concat_return]
  · rw [List.reverse_reverse]

/-! ## Numbered lines -/

/-- What lines say, with their numbers, after a count of lines in front of them. -/
def numbered (count : Nat) (lines : List (List Char)) : List Entry :=
  (lines.zipIdx count).filterMap fun item => (said? item.1).map (Entry.mk (item.2 + 1))

theorem numbered_append (count : Nat) (lines others : List (List Char)) :
    numbered count (lines ++ others) =
      numbered count lines ++ numbered (count + lines.length) others := by
  rw [numbered, List.zipIdx_append, List.filterMap_append]
  rfl

theorem numbered_cons (count : Nat) (line : List Char) (lines : List (List Char)) :
    numbered count (line :: lines) =
      ((said? line).map (Entry.mk (count + 1))).toList ++ numbered (count + 1) lines := by
  rw [numbered, List.zipIdx_cons, List.filterMap_cons]
  dsimp only
  cases said? line <;> rfl

/-- A line may be replaced by one that says the same. -/
theorem numbered_replace (h : said? inner = said? line) :
    numbered count (before ++ inner :: after) = numbered count (before ++ line :: after) := by
  rw [numbered_append, numbered_append, numbered_cons, numbered_cons, h]

/-- Lines read up to a character are those between line feeds. -/
theorem numbered_linesFrom (current : List Char) (hcurrent : '\n' ∉ current) (count : Nat)
    (text : List Char) :
    numbered count (linesFrom current #[] text) =
      numbered count ((current.reverse ++ text).splitOn '\n') := by
  induction text generalizing current count with
  | nil =>
      have hreverse : '\n' ∉ current.reverse := by rwa [List.mem_reverse]
      rw [linesFrom, List.append_nil, List.splitOn_eq_singleton hreverse]
      cases current with
      | nil => rfl
      | cons c current => rfl
  | cons c text ih =>
      by_cases hc : c = '\n'
      · subst hc
        have hreverse : '\n' ∉ current.reverse := by rwa [List.mem_reverse]
        have hsaid := said?_finishLine current.reverse
        rw [List.reverse_reverse] at hsaid
        rw [linesFrom, linesFrom_eq, List.splitOn_append_cons_self_of_not_mem hreverse]
        show numbered count (finishLine current :: linesFrom [] #[] text) = _
        rw [numbered_cons, numbered_cons, hsaid, ih [] (by simp)]
        rfl
      · have hmore : '\n' ∉ c :: current := List.not_mem_cons_of_ne_of_not_mem (Ne.symm hc) hcurrent
        rw [linesFrom.eq_3 _ _ _ _ fun heq => hc heq, ih (c :: current) hmore, List.reverse_cons,
          List.append_assoc]
        rfl

/-- The entries of a text are what the lines between its line feeds say. -/
theorem entries_eq_numbered (text : String) :
    entries text = numbered 0 (text.toList.splitOn '\n') := by
  have hlines := numbered_linesFrom [] (by simp) 0 text.toList
  rw [List.reverse_nil, List.nil_append] at hlines
  rw [← hlines, entries, numbered]
  congr 1
  funext item
  show (if (content item.1).isEmpty then none else some _) = (said? item.1).map _
  rw [said?]
  cases (content item.1).isEmpty <;> rfl

/-! ## Lines laid out anew -/

/-- A text in which a carriage return stands before every line feed. -/
def withReturns (text : List Char) : List Char :=
  text.flatMap fun c => if c = '\n' then ['\r', '\n'] else [c]

/-- The lines of a text, its lines when it has been laid out anew, and how many lines have been
inserted before the line of each number. A line may end with a carriage return that belongs to the
line feed after it; what is put at its end may stand before that or after it. -/
inductive Relaid : List (List Char) → List (List Char) → (Nat → Nat) → Prop where
  | refl {lines : List (List Char)} : Relaid lines lines fun _ => 0
  | trans {lines between others : List (List Char)} {first second : Nat → Nat}
      (hfirst : Relaid lines between first) (hsecond : Relaid between others second) :
      Relaid lines others fun number => first number + second (number + first number)
  | insert {before after : List (List Char)} {line : List Char} (hidle : IsIdle line) :
      Relaid (before ++ after) (before ++ line :: after)
        fun number => if before.length < number then 1 else 0
  | pad {before after : List (List Char)} {front line back ending : List Char}
      (hfront : ∀ c ∈ front, isBlank c = true) (hback : ∀ c ∈ back, isBlank c = true)
      (hending : ending = [] ∨ ending = ['\r']) :
      Relaid (before ++ (line ++ ending) :: after)
        (before ++ (front ++ line ++ back ++ ending) :: after) fun _ => 0
  | comment {before after : List (List Char)} {line comment ending : List Char}
      (hending : ending = [] ∨ ending = ['\r']) :
      Relaid (before ++ (line ++ ending) :: after)
        (before ++ (line ++ '#' :: comment ++ ending) :: after) fun _ => 0
  | returns {text : List Char} :
      Relaid (text.splitOn '\n') ((withReturns text).splitOn '\n') fun _ => 0

/-- An entry with a number that has grown. -/
def Entry.shift (inserted : Nat → Nat) (entry : Entry) : Entry :=
  ⟨entry.number + inserted entry.number, entry.text⟩

/-- Numbers that all grow by as much are those after more lines. -/
theorem map_shift_numbered (count more : Nat)
    (h : ∀ number, count < number → number ≤ count + lines.length → inserted number = more) :
    (numbered count lines).map (Entry.shift inserted) = numbered (count + more) lines := by
  induction lines generalizing count with
  | nil => rfl
  | cons line lines ih =>
      rw [List.length_cons] at h
      have hrest := ih (count + 1) fun number hlt hle => h number (by omega) (by omega)
      have hfirst := h (count + 1) (by omega) (by omega)
      rw [numbered_cons, List.map_append, hrest, numbered_cons, Nat.add_right_comm]
      cases said? line with
      | none => rfl
      | some said => simp only [Option.map_some, Option.toList_some, List.map_cons, List.map_nil,
          Entry.shift, hfirst, Nat.add_right_comm]

theorem map_shift_zero (entries : List Entry) : entries.map (Entry.shift fun _ => 0) = entries :=
  List.map_id entries

/-- What an end of a line that does not count follows, says the same with that end. -/
theorem said?_ending {ending : List Char} (h : ending = [] ∨ ending = ['\r']) (line : List Char) :
    said? (line ++ ending) = said? line := by
  cases h with
  | inl h => rw [h, List.append_nil]
  | inr h => rw [h, said?_concat_return]

theorem numbered_withReturns (current : List Char) (hcurrent : '\n' ∉ current) (count : Nat)
    (text : List Char) :
    numbered count ((current ++ withReturns text).splitOn '\n') =
      numbered count ((current ++ text).splitOn '\n') := by
  induction text generalizing current count with
  | nil => rfl
  | cons c text ih =>
      by_cases hc : c = '\n'
      · subst hc
        have hreturn : '\n' ∉ current ++ ['\r'] := by
          simp only [List.mem_append, List.mem_singleton, not_or]
          exact ⟨hcurrent, by decide⟩
        have heq : current ++ withReturns ('\n' :: text) =
            (current ++ ['\r']) ++ '\n' :: withReturns text := by
          rw [List.append_assoc]
          rfl
        rw [heq, List.splitOn_append_cons_self_of_not_mem hreturn,
          List.splitOn_append_cons_self_of_not_mem hcurrent, numbered_cons, numbered_cons,
          said?_concat_return]
        exact congrArg _ (ih [] (by simp) _)
      · have heq : current ++ withReturns (c :: text) = (current ++ [c]) ++ withReturns text := by
          rw [withReturns, List.flatMap_cons, if_neg hc, List.append_assoc]
          rfl
        have hmore : '\n' ∉ current ++ [c] := by
          simp only [List.mem_append, List.mem_singleton, not_or]
          exact ⟨hcurrent, Ne.symm hc⟩
        rw [heq, ih (current ++ [c]) hmore, List.append_assoc]
        rfl

/-- Lines that have been laid out anew say the same, under numbers that have grown by the lines
inserted before them. -/
theorem Relaid.numbered_eq (h : Relaid lines others inserted) :
    numbered 0 others = (numbered 0 lines).map (Entry.shift inserted) := by
  induction h with
  | refl => exact (map_shift_zero _).symm
  | trans hfirst hsecond ihfirst ihsecond =>
      rw [ihsecond, ihfirst, List.map_map]
      congr 1
      funext entry
      exact congrArg (Entry.mk · entry.text) (Nat.add_assoc ..)
  | @insert before after line hidle =>
      rw [numbered_append, numbered_append, List.map_append, numbered_cons, said?_of_isIdle hidle]
      -- The lines before keep their numbers, and those after grow by one.
      rw [map_shift_numbered 0 0 fun number _ hle => if_neg (by omega),
        map_shift_numbered _ 1 fun number hlt _ => if_pos (by omega)]
      rfl
  | pad hfront hback hending =>
      rw [map_shift_zero]
      apply numbered_replace
      rw [said?_ending hending, said?_ending hending]
      exact said?_around hfront ⟨_, hback, .inl rfl⟩
  | @comment before after line comment ending hending =>
      rw [map_shift_zero]
      apply numbered_replace
      rw [said?_ending hending, said?_ending hending]
      exact said?_append_idle line ⟨[], by simp, .inr ⟨comment, rfl⟩⟩
  | @returns text =>
      rw [map_shift_zero]
      exact numbered_withReturns [] (by simp) 0 text

/-- A text that has been laid out anew has the same entries, under numbers that have grown by the
lines inserted before them. -/
theorem Relaid.entries_eq {text other : String}
    (h : Relaid (text.toList.splitOn '\n') (other.toList.splitOn '\n') inserted) :
    entries other = (entries text).map (Entry.shift inserted) := by
  rw [entries_eq_numbered, entries_eq_numbered, h.numbered_eq]

end ConfigStream.Text
