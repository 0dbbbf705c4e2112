import ConfigStream.Proofs.Decoder.Boundary

/-!
# The data of a whole frame

Data that fills the frame of a cursor to its end tells the set data bits and one syndrome check,
and leaves the cursor at the start of a frame (`FrameCursor.takeAll_to_end`). From the first word of
a frame on, these are the data bits and the syndrome of the frame.
-/

namespace ConfigStream

/-- The set data bits of a frame, as they are told of the frame at an address. -/
def Frame.bitEvents (frame : Frame) (address : UInt32) : List Event :=
  frame.dataBits.map fun place => .bit ⟨address, place.1, place.2⟩

namespace FrameCursor

variable {order : FrameOrder}

/-- What words of a frame tell of its data bits, from the given word of the frame on. -/
def dataEvents (frame : UInt32) (word : Nat) (words : List UInt32) : List Event :=
  (words.zipIdx word).flatMap fun entry =>
    (Frame.dataBitsOf entry.2 entry.1).map fun bit => .bit ⟨frame, entry.2, bit⟩

/-- What words of a frame tell of their data bits, told in two parts. -/
theorem dataEvents_append (frame : UInt32) (word : Nat) (first second : List UInt32) :
    dataEvents frame word (first ++ second) =
      dataEvents frame word first ++ dataEvents frame (word + first.length) second := by
  rw [dataEvents, List.zipIdx_append, List.flatMap_append]
  rfl

/-- What words of a frame tell is bits of the frame, in the first of the words or after it. -/
theorem mem_dataEvents {frame : UInt32} {word : Nat} {words : List UInt32} {event : Event}
    (h : event ∈ dataEvents frame word words) :
    ∃ place bit : Nat, word ≤ place ∧ event = .bit ⟨frame, place, bit⟩ := by
  obtain ⟨entry, hentry, hevent⟩ := List.mem_flatMap.1 h
  obtain ⟨bit, -, hbit⟩ := List.mem_map.1 hevent
  exact ⟨entry.2, bit, List.le_snd_of_mem_zipIdx hentry, hbit.symm⟩

/-- The reserved bits met after further words of a frame. -/
def observedAfter (word : Nat) (observed : UInt64) (words : List UInt32) : UInt64 :=
  (words.zipIdx word).foldl (fun field entry => field ||| Frame.storedPart entry.2 entry.1) observed

/-- The syndrome of the data met after further words of a frame. -/
def computedAfter (word : Nat) (computed : UInt64) (words : List UInt32) : UInt64 :=
  (words.zipIdx word).foldl
    (fun syndrome entry => syndrome ^^^ Syndrome.ofWord entry.2 entry.1) computed

/-- The address where data goes on after a full frame. -/
def after (order : FrameOrder) (frame : UInt32) : UInt32 :=
  (order.next? frame).getD frame

/-- Words up to the last of the frame tell their data bits and then a check. -/
theorem takeAll_to_end (cursor : FrameCursor) (word : UInt32) (words : List UInt32)
    (h : cursor.word + (word :: words).length = Frame.wordCount) :
    cursor.takeAll order (word :: words) =
      (start (after order cursor.frame),
        dataEvents cursor.frame cursor.word (word :: words) ++
          [.diagnostic (.eccCheck cursor.frame
            (observedAfter cursor.word cursor.observed (word :: words))
            (computedAfter cursor.word cursor.computed (word :: words)))]) := by
  induction words generalizing cursor word with
  | nil =>
      have hlast : ¬ cursor.word + 1 < Frame.wordCount := by
        simp only [List.length_cons, List.length_nil] at h
        omega
      rw [takeAll, take, dif_neg hlast]
      simp [takeAll, dataEvents, observedAfter, computedAfter, after]
  | cons next words ih =>
      simp only [List.length_cons] at h
      have hfurther : cursor.word + 1 < Frame.wordCount := by omega
      rw [takeAll, take, dif_pos hfurther]
      simp only
      rw [ih _ next (by simp only [List.length_cons]; omega)]
      simp [dataEvents, observedAfter, computedAfter]

/-- A word of frame data tells its data bits and, if at all, a check of its frame. -/
theorem mem_take {cursor : FrameCursor} {data : UInt32} {event : Event}
    (h : event ∈ (cursor.take order data).2) :
    (∃ bit ∈ Frame.dataBitsOf cursor.word data,
        event = .bit ⟨cursor.frame, cursor.word, bit⟩) ∨
      ∃ observed computed, event = .diagnostic (.eccCheck cursor.frame observed computed) := by
  have hbits {event : Event}
      (h : event ∈ (Frame.dataBitsOf cursor.word data).map fun bit =>
        Event.bit ⟨cursor.frame, cursor.word, bit⟩) :
      ∃ bit ∈ Frame.dataBitsOf cursor.word data,
        event = .bit ⟨cursor.frame, cursor.word, bit⟩ := by
    obtain ⟨bit, hbit, hevent⟩ := List.mem_map.1 h
    exact ⟨bit, hbit, hevent.symm⟩
  by_cases hfurther : cursor.word + 1 < Frame.wordCount
  · rw [take, dif_pos hfurther] at h
    exact .inl (hbits h)
  · rw [take, dif_neg hfurther] at h
    rcases List.mem_append.1 h with h | h
    · exact .inl (hbits h)
    · exact .inr ⟨_, _, List.mem_singleton.1 h⟩

/-! ## Frames from their first word on -/

theorem dataEvents_words (address : UInt32) (frame : Frame) :
    dataEvents address 0 frame.words.toList = frame.bitEvents address := by
  simp [Frame.bitEvents, Frame.dataBits, dataEvents, List.map_flatMap, Function.comp_def]

theorem observedAfter_words (frame : Frame) :
    observedAfter 0 0 frame.words.toList = frame.storedSyndrome := rfl

theorem computedAfter_words (frame : Frame) :
    computedAfter 0 0 frame.words.toList = frame.syndrome := by
  have hlength : frame.words.toList.length = Frame.wordCount := frame.words.length_toList
  rw [Frame.syndrome, Syndrome.ofWords, List.take_of_length_le (Nat.le_of_eq hlength)]
  rfl

end FrameCursor

end ConfigStream
