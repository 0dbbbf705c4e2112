import ConfigStream.Stream.Reader
import Mathlib.Data.Nat.Find

/-!
# Where words stand

`Word.StandsAt` is what it is for the bytes of a word to occur at an offset. `findSync` finds the
least offset at which the sync word stands (`findSync_eq`).
-/

namespace ConfigStream

namespace Word

/-- The bytes of a word stand at an offset of a byte sequence. -/
def StandsAt (word : UInt32) (bytes : List UInt8) (offset : Nat) : Prop :=
  first? (bytes.drop offset) = some word

instance (word : UInt32) (bytes : List UInt8) (offset : Nat) :
    Decidable (StandsAt word bytes offset) :=
  inferInstanceAs (Decidable (first? (bytes.drop offset) = some word))

/-- The four bytes at an offset decide. -/
theorem standsAt_iff {word : UInt32} {bytes : List UInt8} {offset : Nat} :
    StandsAt word bytes offset ↔ toBytes word <+: bytes.drop offset := by
  unfold StandsAt
  constructor
  · intro h
    obtain ⟨first, second, third, fourth, htake, rfl⟩ := first?_eq_some_iff.1 h
    rw [toBytes_ofBytes, ← htake]
    exact List.take_prefix 4 _
  · rintro ⟨rest, hrest⟩
    rw [← hrest, first?_toBytes_append]

/-- A word lies inside the bytes that it stands in. -/
theorem StandsAt.le {word : UInt32} {bytes : List UInt8} {offset : Nat}
    (h : StandsAt word bytes offset) : offset + 4 ≤ bytes.length := by
  have hlength := (standsAt_iff.1 h).length_le
  rw [length_toBytes, List.length_drop] at hlength
  omega

/-- A word stands where it was put. -/
theorem standsAt_append (word : UInt32) (front back : List UInt8) :
    StandsAt word (front ++ toBytes word ++ back) front.length := by
  rw [standsAt_iff, List.append_assoc, List.drop_left]
  exact List.prefix_append _ _

theorem toBytes_inj {first second : UInt32} : toBytes first = toBytes second ↔ first = second := by
  constructor
  · intro h
    have hread := first?_toBytes_append first []
    rw [h, first?_toBytes_append] at hread
    exact (Option.some.inj hread).symm
  · rintro rfl
    rfl

/-- Bytes that follow do not matter to a word that ends before them. -/
theorem standsAt_append_left {word : UInt32} {front back : List UInt8} {offset : Nat}
    (h : offset + 4 ≤ front.length) :
    StandsAt word (front ++ back) offset ↔ StandsAt word front offset := by
  have hlength : (toBytes word).length ≤ (front.drop offset).length := by
    rw [length_toBytes, List.length_drop]
    omega
  rw [standsAt_iff, standsAt_iff, List.drop_append_of_le_length (by omega)]
  exact ⟨fun h => List.prefix_of_prefix_length_le h (List.prefix_append _ _) hlength,
    fun h => h.trans (List.prefix_append _ _)⟩

/-- A word stands somewhere if its bytes do. -/
theorem exists_standsAt_iff {word : UInt32} {bytes : List UInt8} :
    (∃ offset, StandsAt word bytes offset) ↔ toBytes word <:+: bytes := by
  constructor
  · rintro ⟨offset, h⟩
    exact (standsAt_iff.1 h).isInfix.trans (List.drop_suffix offset bytes).isInfix
  · rintro ⟨front, back, rfl⟩
    exact ⟨front.length, standsAt_append word front back⟩

/-! ## Bytes that a word does not have

Such a byte separates what is before it from what is after it: no word goes across. -/

theorem infix_append_cons_iff {word front back : List UInt8} {separator : UInt8}
    (hword : word ≠ []) (hseparator : separator ∉ word) :
    word <:+: front ++ separator :: back ↔ word <:+: front ∨ word <:+: back := by
  have hnone {part : List UInt8} (hpart : part <+: separator :: back)
      (hmem : separator ∉ part) : part = [] := by
    cases part with
    | nil => rfl
    | cons byte part =>
        obtain ⟨rfl, -⟩ := List.cons_prefix_cons.1 hpart
        exact absurd List.mem_cons_self hmem
  constructor
  · intro h
    rcases List.infix_append_iff.1 h with hfront | hback | ⟨early, late, rfl, hearly, hlate⟩
    · exact .inl hfront
    · rcases List.infix_cons_iff.1 hback with hstart | hback
      · exact absurd (hnone hstart hseparator) hword
      · exact .inr hback
    · have hmem : separator ∉ late := fun hmem => hseparator (List.mem_append_right early hmem)
      rw [hnone hlate hmem, List.append_nil]
      exact .inl hearly.isInfix
  · rintro (hfront | hback)
    · exact hfront.trans (List.prefix_append ..).isInfix
    · exact hback.trans ((List.suffix_cons ..).trans (List.suffix_append ..)).isInfix

theorem prefix_of_prefix_append_cons {word front back : List UInt8} {separator : UInt8}
    (h : word <+: front ++ separator :: back) (hseparator : separator ∉ word) : word <+: front := by
  by_cases hlength : word.length ≤ front.length
  · exact List.prefix_of_prefix_length_le h (List.prefix_append ..) hlength
  · have hfront : front ++ [separator] <+: front ++ separator :: back :=
      (List.prefix_append_right_inj front).2 (by simp)
    have hinside := List.prefix_of_prefix_length_le hfront h
      (by rw [List.length_append, List.length_singleton]; omega)
    exact absurd (hinside.mem (List.mem_append_right _ List.mem_cons_self)) hseparator

theorem infix_separators_append_iff {word separators back : List UInt8} (hword : word ≠ [])
    (hseparators : separators.all (fun separator => decide (separator ∉ word)) = true) :
    word <:+: separators ++ back ↔ word <:+: back := by
  induction separators with
  | nil => rfl
  | cons separator separators ih =>
      obtain ⟨hfirst, hrest⟩ := Bool.and_eq_true_iff.1 hseparators
      have hone : word <:+: [] ++ separator :: (separators ++ back) ↔ _ :=
        infix_append_cons_iff hword (of_decide_eq_true hfirst)
      rw [List.cons_append, ← ih hrest]
      refine hone.trans ⟨fun h => h.resolve_left fun hnil => ?_, .inr⟩
      exact hword (List.infix_nil.1 hnil)

end Word

/-- The search ends at the least offset where the sync word stands. -/
theorem findSync_eq {bytes : List UInt8} {offset : Nat} (h : Word.StandsAt syncWord bytes offset)
    (hfirst : ∀ earlier < offset, ¬ Word.StandsAt syncWord bytes earlier) (start : Nat) :
    findSync start bytes = some (start + offset, bytes.drop (offset + 4)) := by
  induction bytes generalizing offset start with
  | nil => simp [Word.StandsAt, Word.first?] at h
  | cons byte bytes ih =>
      cases offset with
      | zero =>
          have hhere : Word.first? (byte :: bytes) = some syncWord := h
          rw [findSync, if_pos hhere, List.drop_succ_cons, Nat.add_zero]
      | succ offset =>
          have hhere : ¬ Word.first? (byte :: bytes) = some syncWord :=
            hfirst 0 (Nat.zero_lt_succ offset)
          have hlater : ∀ earlier < offset, ¬ Word.StandsAt syncWord bytes earlier :=
            fun earlier hearlier => hfirst (earlier + 1) (Nat.succ_lt_succ hearlier)
          rw [findSync, if_neg hhere, ih h hlater, Nat.add_assoc, Nat.add_comm 1 offset]
          rfl

/-- A search that fails has met no sync word. -/
theorem findSync_eq_none_iff {bytes : List UInt8} (start : Nat) :
    findSync start bytes = none ↔ ∀ offset, ¬ Word.StandsAt syncWord bytes offset := by
  constructor
  · intro h offset hstands
    have hexists : ∃ first, Word.StandsAt syncWord bytes first := ⟨offset, hstands⟩
    rw [findSync_eq (Nat.find_spec hexists) (fun _ => Nat.find_min hexists) start] at h
    cases h
  · induction bytes generalizing start with
    | nil => exact fun _ => rfl
    | cons byte bytes ih =>
        intro h
        have hhere : ¬ Word.first? (byte :: bytes) = some syncWord := h 0
        rw [findSync, if_neg hhere]
        exact ih (start + 1) fun offset => h (offset + 1)

/-- What a search finds is the first sync word. -/
theorem findSync_eq_some_iff {bytes rest : List UInt8} {start found : Nat} :
    findSync start bytes = some (found, rest) ↔
      ∃ offset, found = start + offset ∧ rest = bytes.drop (offset + 4) ∧
        Word.StandsAt syncWord bytes offset ∧
        ∀ earlier < offset, ¬ Word.StandsAt syncWord bytes earlier := by
  constructor
  · intro h
    have hexists : ∃ first, Word.StandsAt syncWord bytes first := by
      by_contra hnone
      rw [(findSync_eq_none_iff start).2 (not_exists.1 hnone)] at h
      cases h
    have hleast := findSync_eq (Nat.find_spec hexists) (fun _ => Nat.find_min hexists) start
    obtain ⟨rfl, rfl⟩ := Prod.mk.inj (Option.some.inj (hleast.symm.trans h))
    exact ⟨_, rfl, rfl, Nat.find_spec hexists, fun _ => Nat.find_min hexists⟩
  · rintro ⟨offset, rfl, rfl, hstands, hfirst⟩
    exact findSync_eq hstands hfirst start

/-- The first of the sync words that stand at an offset or after it. -/
structure FirstSync (bytes : List UInt8) (start sync : Nat) : Prop where
  le : start ≤ sync
  standsAt : Word.StandsAt syncWord bytes sync
  least : ∀ earlier, start ≤ earlier → earlier < sync → ¬ Word.StandsAt syncWord bytes earlier

/-- What stands in a rest of a stream stands in the stream. -/
theorem Word.standsAt_drop (word : UInt32) (bytes : List UInt8) (start offset : Nat) :
    StandsAt word (bytes.drop start) offset ↔ StandsAt word bytes (start + offset) := by
  rw [StandsAt, StandsAt, List.drop_drop]

/-- A search in the rest of a stream finds the first sync word from there on. -/
theorem FirstSync.of_findSync {bytes rest : List UInt8} {start found : Nat}
    (h : findSync start (bytes.drop start) = some (found, rest)) :
    FirstSync bytes start found ∧ rest = bytes.drop (found + 4) := by
  obtain ⟨offset, rfl, rfl, hstands, hfirst⟩ := findSync_eq_some_iff.1 h
  constructor
  · refine ⟨Nat.le_add_right start offset, (Word.standsAt_drop ..).1 hstands, ?_⟩
    intro earlier hstart hearlier hstands
    refine hfirst (earlier - start) (by omega) ((Word.standsAt_drop ..).2 ?_)
    rwa [Nat.add_sub_cancel' hstart]
  · rw [List.drop_drop, Nat.add_assoc]

/-- A search in the rest of a stream fails if no sync word stands from there on. -/
theorem findSync_drop_eq_none_iff {bytes : List UInt8} {start : Nat} :
    findSync start (bytes.drop start) = none ↔
      ∀ offset, start ≤ offset → ¬ Word.StandsAt syncWord bytes offset := by
  rw [findSync_eq_none_iff]
  constructor
  · intro h offset hstart hstands
    refine h (offset - start) ((Word.standsAt_drop ..).2 ?_)
    rwa [Nat.add_sub_cancel' hstart]
  · exact fun h offset hstands => h _ (Nat.le_add_right ..) ((Word.standsAt_drop ..).1 hstands)

/-- A search that starts further along finds its offset further along. -/
theorem findSync_add (start bytes : Nat) (rest : List UInt8) :
    findSync (start + bytes) rest =
      (findSync start rest).map fun (offset, later) => (offset + bytes, later) := by
  induction rest generalizing start with
  | nil => rfl
  | cons byte rest ih =>
      simp only [findSync]
      split
      · rfl
      · rw [Nat.add_right_comm, ih]

end ConfigStream
