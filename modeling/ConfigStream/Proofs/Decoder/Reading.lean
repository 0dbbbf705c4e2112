import ConfigStream.Decoder
import ConfigStream.Proofs.Stream.Sync
import Mathlib.Data.List.Basic

/-!
# Reading a stretch of a stream

`Reads order decoder bytes events last` says that a decoder which takes the bytes tells the events
and is `last` after them. Stretches that follow one another are read one after the other
(`Reads.trans`), so that a stream can be read packet by packet. Read `Reads.search` for what
happens up to a sync word and `Reads.word` for what happens after it.
-/

namespace ConfigStream

/-- Whether a decoder looks at every run of four bytes. -/
def Phase.isSearching : Phase → Bool
  | .unsynced | .desynced _ => true
  | .header | .payload .. | .stopped => false

namespace Decoder

/-- Taking the bytes tells the events and leaves the last decoder. -/
def Reads (order : FrameOrder) (decoder : Decoder) (bytes : List UInt8) (events : List Event)
    (last : Decoder) : Prop :=
  ∀ before : Array Event, feedAll order (decoder, before) bytes = (last, before ++ events)

variable {order : FrameOrder} {decoder middle last : Decoder}

/-- No bytes tell nothing. -/
theorem Reads.nil : Reads order decoder [] [] decoder := by
  intro before
  simp [feedAll]

/-- One stretch is read after another. -/
theorem Reads.trans {first second : List UInt8} {early late : List Event}
    (hfirst : Reads order decoder first early middle)
    (hsecond : Reads order middle second late last) :
    Reads order decoder (first ++ second) (early ++ late) last := by
  intro before
  rw [feedAll_append, hfirst before, hsecond]
  congr 1
  apply Array.ext'
  simp

/-- A single byte is read by `feed`. -/
theorem Reads.feed {byte : UInt8} {events : List Event}
    (h : decoder.feed order byte = (last, events)) :
    Reads order decoder [byte] events last := by
  intro before
  simp [feedAll, h]

/-- Any bytes are read. -/
theorem Reads.exists (order : FrameOrder) (decoder : Decoder) (bytes : List UInt8) :
    ∃ events last, Reads order decoder bytes events last := by
  induction bytes generalizing decoder with
  | nil => exact ⟨[], decoder, .nil⟩
  | cons byte bytes ih =>
      obtain ⟨events, last, hrest⟩ := ih (decoder.feed order byte).1
      exact ⟨_, last, .trans (.feed rfl) hrest⟩

/-- The decoder after the first bytes of a stream, and the events told by then. -/
def after (order : FrameOrder) (bytes : List UInt8) : Decoder × List Event :=
  let (decoder, events) := feedAll order (.start, #[]) bytes
  (decoder, events.toList)

theorem after_append (order : FrameOrder) (bytes : List UInt8) (byte : UInt8) :
    after order (bytes ++ [byte]) =
      (((after order bytes).1.feed order byte).1,
        (after order bytes).2 ++ ((after order bytes).1.feed order byte).2) := by
  simp [after, feedAll]

/-- From the start of a stream on, what is read is where the decoder is after it. -/
theorem Reads.after_eq {bytes : List UInt8} {events : List Event}
    (h : Reads order start bytes events last) : after order bytes = (last, events) := by
  simp [after, h #[]]

/-- The first bytes of a stream are read. -/
theorem Reads.after (order : FrameOrder) (bytes : List UInt8) :
    Reads order start bytes (Decoder.after order bytes).2 (Decoder.after order bytes).1 := by
  obtain ⟨events, last, hreads⟩ := Reads.exists order start bytes
  rwa [hreads.after_eq]

/-- The same bytes are read in one way. -/
theorem Reads.unique {other : Decoder} {bytes : List UInt8} {events more : List Event}
    (h : Reads order decoder bytes events last) (hother : Reads order decoder bytes more other) :
    events = more ∧ last = other := by
  obtain ⟨hlast, hevents⟩ := Prod.mk.inj ((h #[]).symm.trans (hother #[]))
  exact ⟨by simpa using hevents, hlast⟩

/-- What is left of a stretch is read from where its first part has led. -/
theorem Reads.rest {first second : List UInt8} {early events : List Event}
    (h : Reads order decoder (first ++ second) events last)
    (hfirst : Reads order decoder first early middle) :
    ∃ late, events = early ++ late ∧ Reads order middle second late last := by
  obtain ⟨late, other, hsecond⟩ := Reads.exists order middle second
  obtain ⟨rfl, rfl⟩ := h.unique (hfirst.trans hsecond)
  exact ⟨late, rfl, hsecond⟩

/-- What a complete stream tells is what taking it tells, and what its end tells. -/
theorem Reads.decode_eq {bytes : List UInt8} {events : List Event}
    (h : Reads order start bytes events last) :
    decode order bytes = last.finish.map fun ending => ⟨events ++ ending⟩ := by
  cases hend : last.finish <;> simp [decode, h #[], hend, Except.map]

/-! ## Bytes -/

/-- With fewer than three bytes pending, a byte is only remembered. -/
theorem feed_pending {byte : UInt8} (h : decoder.pending.length < 3) :
    decoder.feed order byte = ({ decoder with pending := decoder.pending ++ [byte] }, []) := by
  unfold Decoder.feed
  split
  · rename_i hpending
    simp [hpending] at h
  · rfl

/-- Bytes that complete no word are only remembered. -/
theorem Reads.pending {bytes : List UInt8} (h : decoder.pending.length + bytes.length ≤ 3) :
    Reads order decoder bytes [] { decoder with pending := decoder.pending ++ bytes } := by
  induction bytes generalizing decoder with
  | nil => simpa using Reads.nil
  | cons byte bytes ih =>
      simp only [List.length_cons] at h
      have hbyte : Reads order decoder [byte] []
          { decoder with pending := decoder.pending ++ [byte] } :=
        .feed (feed_pending (by omega))
      have hrest : Reads order { decoder with pending := decoder.pending ++ [byte] } bytes []
          { decoder with pending := decoder.pending ++ [byte] ++ bytes } :=
        ih (by simp only [List.length_append, List.length_singleton]; omega)
      simpa using hbyte.trans hrest

/-- The fourth byte completes a word, unless a sync word is looked for. -/
theorem feed_word {a b c d : UInt8} (hphase : decoder.phase.isSearching = false) :
    { decoder with pending := [a, b, c] }.feed order d =
      { decoder with position := decoder.position + 4, pending := [] }.takeWord order
        decoder.position (Word.ofBytes a b c d) := by
  obtain ⟨phase⟩ := decoder
  cases phase <;> first | rfl | simp [Phase.isSearching] at hphase

/-- Four bytes are looked at as a sync word while one is looked for. -/
theorem feed_window {a b c d : UInt8} (hpending : decoder.pending = [a, b, c])
    (hphase : decoder.phase.isSearching = true) :
    decoder.feed order d = decoder.takeWindow (Word.ofBytes a b c d) [b, c, d] := by
  obtain ⟨phase⟩ := decoder
  subst hpending
  cases phase <;> first | rfl | simp [Phase.isSearching] at hphase

/-! ## Words -/

/-- The four bytes of a word are taken as that word once sync has been found. -/
theorem Reads.word {word : UInt32} {events : List Event} (hpending : decoder.pending = [])
    (hphase : decoder.phase.isSearching = false)
    (h : { decoder with position := decoder.position + 4 }.takeWord order decoder.position word =
      (last, events)) :
    Reads order decoder (Word.toBytes word) events last := by
  obtain ⟨a, b, c, d, hbytes⟩ : ∃ a b c d, Word.toBytes word = [a, b, c, d] :=
    ⟨_, _, _, _, rfl⟩
  have hword : Word.ofBytes a b c d = word := by
    have hfirst := Word.first?_toBytes_append word []
    rw [hbytes] at hfirst
    exact Option.some.inj hfirst
  have hthree : Reads order decoder [a, b, c] [] { decoder with pending := [a, b, c] } := by
    have hread : Reads order decoder [a, b, c] []
        { decoder with pending := decoder.pending ++ [a, b, c] } :=
      .pending (by simp [hpending])
    rwa [hpending] at hread
  have hfour : Reads order { decoder with pending := [a, b, c] } [d] events last := by
    apply Reads.feed
    rw [feed_word hphase, hword, ← h]
    simp only [hpending]
  rw [hbytes]
  exact hthree.trans hfour

/-! ## The search for a sync word -/

/-- A byte moves the search on over the same bytes, or it completes the sync word. -/
theorem feed_search (byte : UInt8) (hphase : decoder.phase.isSearching = true)
    (hpending : decoder.pending.length ≤ 3) :
    (∃ position pending,
        decoder.feed order byte = ({ decoder with position, pending }, []) ∧ pending.length ≤ 3 ∧
        ∀ bytes, findSync decoder.position (decoder.pending ++ byte :: bytes) =
          findSync position (pending ++ bytes)) ∨
      decoder.feed order byte =
        ({ decoder with phase := .header, position := decoder.position + 4, pending := [] },
          [.diagnostic (.syncAt decoder.position)]) ∧
        ∀ bytes, findSync decoder.position (decoder.pending ++ byte :: bytes) =
          some (decoder.position, bytes) := by
  by_cases hshort : decoder.pending.length < 3
  · refine .inl ⟨decoder.position, decoder.pending ++ [byte], feed_pending hshort, ?_, ?_⟩
    · simp only [List.length_append, List.length_singleton]
      omega
    · intro bytes
      rw [List.append_assoc, List.singleton_append]
  · -- Three bytes are pending, and with this one they make a window.
    obtain ⟨a, b, c, hthree⟩ := List.length_eq_three.1
      (show decoder.pending.length = 3 by omega)
    rw [feed_window hthree hphase, takeWindow]
    by_cases hword : Word.ofBytes a b c byte = syncWord
    · refine .inr ⟨if_pos hword, fun bytes => ?_⟩
      simp [hthree, findSync, Word.first?, hword]
    · refine .inl ⟨decoder.position + 1, [b, c, byte], if_neg hword, Nat.le_refl 3, fun bytes => ?_⟩
      simp [hthree, findSync, Word.first?, hword]

/-- A decoder that looks for a sync word stops right after the first one, which is the one that
`findSync` finds, and has told its offset. -/
theorem Reads.search {bytes rest : List UInt8} {offset : Nat}
    (hphase : decoder.phase.isSearching = true) (hpending : decoder.pending.length ≤ 3)
    (h : findSync decoder.position (decoder.pending ++ bytes) = some (offset, rest)) :
    ∃ taken, bytes = taken ++ rest ∧
      Reads order decoder taken [.diagnostic (.syncAt offset)]
        { decoder with phase := .header, position := offset + 4, pending := [] } := by
  induction bytes generalizing decoder with
  | nil =>
      -- Three bytes hold no sync word.
      rw [List.append_nil] at h
      obtain ⟨place, -, -, hstands, -⟩ := findSync_eq_some_iff.1 h
      have hle := hstands.le
      omega
  | cons byte bytes ih =>
      rcases feed_search byte hphase hpending with
        ⟨position, pending, hfeed, hthree, hsame⟩ | ⟨hfeed, hfound⟩
      · obtain ⟨taken, rfl, hreads⟩ :=
          @ih { decoder with position, pending } hphase hthree (hsame bytes ▸ h)
        exact ⟨byte :: taken, rfl, .trans (.feed hfeed) hreads⟩
      · obtain ⟨rfl, rfl⟩ := Prod.mk.inj (Option.some.inj ((hfound bytes).symm.trans h))
        exact ⟨[byte], rfl, .feed hfeed⟩

/-- A decoder that looks for a sync word in bytes without one tells nothing and goes on looking. -/
theorem Reads.noSync {bytes : List UInt8} (hphase : decoder.phase.isSearching = true)
    (hpending : decoder.pending.length ≤ 3)
    (h : findSync decoder.position (decoder.pending ++ bytes) = none) :
    ∃ last, Reads order decoder bytes [] last ∧ last.phase = decoder.phase := by
  induction bytes generalizing decoder with
  | nil => exact ⟨decoder, .nil, rfl⟩
  | cons byte bytes ih =>
      rcases feed_search byte hphase hpending with
        ⟨position, pending, hfeed, hthree, hsame⟩ | ⟨-, hfound⟩
      · obtain ⟨last, hreads, hlast⟩ :=
          @ih { decoder with position, pending } hphase hthree (hsame bytes ▸ h)
        exact ⟨last, .trans (.feed hfeed) hreads, hlast⟩
      · rw [hfound] at h
        cases h

/-- A sync word at the start of a stream is found there. -/
theorem Reads.syncWord : Reads order start (Word.toBytes syncWord) [.diagnostic (.syncAt 0)]
    { start with phase := .header, position := 4 } := by
  have hfound : findSync start.position (start.pending ++ Word.toBytes ConfigStream.syncWord) =
      some (0, []) := rfl
  obtain ⟨taken, htaken, hreads⟩ := @Reads.search order start _ _ _ rfl (Nat.zero_le 3) hfound
  rw [List.append_nil] at htaken
  exact htaken ▸ hreads

/-- The first event of a stream is the first sync word in it. -/
theorem head?_events_of_findSync {bytes rest : List UInt8} {offset : Nat} {report : Report}
    (hfound : findSync 0 bytes = some (offset, rest)) (h : decode order bytes = .ok report) :
    report.events.head? = some (.diagnostic (.syncAt offset)) := by
  obtain ⟨taken, rfl, hsync⟩ := @Reads.search order start _ _ _ rfl (Nat.zero_le 3) hfound
  obtain ⟨events, last, hrest⟩ := Reads.exists order
    { start with phase := .header, position := offset + 4, pending := [] } rest
  rw [(hsync.trans hrest).decode_eq] at h
  cases hend : last.finish with
  | error fault => simp [hend, Except.map] at h
  | ok ending =>
      rw [hend] at h
      obtain rfl := Except.ok.inj h
      rfl

end Decoder

end ConfigStream
