import ConfigStream.Proofs.Decoder.FrameData
import ConfigStream.Proofs.Decoder.Reading
import ConfigStream.Proofs.Frame.Columns
import ConfigStream.Proofs.Frame.Memory

/-!
# Frame data with every index checked

A decoder takes frame data word by word and keeps a word counter that cannot leave the frame. A
`CheckedCursor` keeps a plain counter and takes one set bit after another, and it has no result
where an index leaves its range: the word the frame, a data bit the frame, or a reserved bit the 48
bits of the reserved region. Whatever a stream holds, it always has a result, which is what the
decoder has (`CheckedCursor.take?_ofCursor`).
-/

namespace ConfigStream

/-! ## Reserved bits one by one -/

namespace Frame

/-- What is joined to a field bit by bit is what the word holds of it. -/
theorem foldl_reservedPlace (field : UInt64) (word : Nat) (value : UInt32) :
    (((Word.setBits value).filter (isReserved word)).map (reservedPlace word)).foldl
      (fun field place => field ||| 1 <<< UInt64.ofNat place) field =
        field ||| storedPart word value := by
  rw [storedPart_eq, ofPlaces]
  generalize ((Word.setBits value).filter (isReserved word)).map (reservedPlace word) = places
  have hjoin : (places.map fun place => 1 <<< UInt64.ofNat place).foldl (· ||| ·) (field ||| 0) =
      field ||| (places.map fun place => 1 <<< UInt64.ofNat place).foldl (· ||| ·) 0 :=
    List.foldl_assoc
  simpa [List.foldl_map] using hjoin

end Frame

/-- What is added to a syndrome bit by bit is what the word contributes. -/
theorem Syndrome.foldl_ofBit (syndrome : UInt64) (word : Nat) (value : UInt32) :
    (Frame.dataBitsOf word value).foldl (fun syndrome bit => syndrome ^^^ ofBit word bit) syndrome =
      syndrome ^^^ ofWord word value := by
  have hadd : ((Frame.dataBitsOf word value).map (ofBit word)).foldl (· ^^^ ·) (syndrome ^^^ 0) =
      syndrome ^^^ ((Frame.dataBitsOf word value).map (ofBit word)).foldl (· ^^^ ·) 0 :=
    List.foldl_assoc
  simpa [List.foldl_map, ofWord] using hadd

/-! ## Checked cursors -/

/-- A place in a frame, with plain counters, and what has been collected so far. -/
structure CheckedCursor where
  frame : UInt32
  word : Nat
  observed : UInt64
  computed : UInt64
  frames : FrameMemory
  events : List Event

namespace CheckedCursor

/-- Take one set bit of the current word. There is no result if its place lies outside the reserved
region or outside the frame. -/
def takeBit? (cursor : CheckedCursor) (bit : Nat) : Option CheckedCursor :=
  if Frame.isReserved cursor.word bit then
    let place := Frame.reservedPlace cursor.word bit
    if place < Frame.reservedWidth then
      some { cursor with observed := cursor.observed ||| 1 <<< UInt64.ofNat place }
    else none
  else
    let address : BitAddress := ⟨cursor.frame, cursor.word, bit⟩
    if inFrame : address.index < Frame.bitCount then
      some { cursor with
        computed := cursor.computed ^^^ Syndrome.ofBit cursor.word bit
        frames :=
          (cursor.frames.ensure cursor.frame).assign cursor.frame ⟨address.index, inFrame⟩ true
        events := cursor.events ++ [.bit address] }
    else none

/-- The end of a word. After the last word of a frame its syndrome is checked, and data goes on in
the frame that follows, or in the same one again. -/
def endWord (order : FrameOrder) (cursor : CheckedCursor) : CheckedCursor :=
  if cursor.word + 1 < Frame.wordCount then { cursor with word := cursor.word + 1 }
  else
    { cursor with
      frame := (order.next? cursor.frame).getD cursor.frame
      word := 0
      observed := 0
      computed := 0
      events := cursor.events ++
        [.diagnostic (.eccCheck cursor.frame cursor.observed cursor.computed)] }

/-- Take one word of frame data, bit by bit. There is no result if the frame has no such word. -/
def take? (order : FrameOrder) (cursor : CheckedCursor) (data : UInt32) : Option CheckedCursor :=
  if cursor.word < Frame.wordCount then
    ((Word.setBits data).foldlM takeBit? cursor).map (endWord order)
  else none

/-- The checked form of a cursor, with the frames that are made of the bits told so far. -/
def ofCursor (cursor : FrameCursor) (events : List Event) : CheckedCursor :=
  ⟨cursor.frame, cursor.word, cursor.observed, cursor.computed,
    .ofBits (events.filterMap Event.bit?), events⟩

/-- The bits of a word are taken into the reserved region and into the frame. -/
theorem foldlM_takeBit? (cursor : CheckedCursor) (hword : cursor.word < Frame.wordCount)
    {bits : List Nat} (hbits : ∀ bit ∈ bits, bit < Word.width) :
    bits.foldlM takeBit? cursor =
      some { cursor with
        observed := ((bits.filter (Frame.isReserved cursor.word)).map
          (Frame.reservedPlace cursor.word)).foldl
            (fun field place => field ||| 1 <<< UInt64.ofNat place) cursor.observed
        computed := (bits.filter fun bit => !Frame.isReserved cursor.word bit).foldl
          (fun syndrome bit => syndrome ^^^ Syndrome.ofBit cursor.word bit) cursor.computed
        frames := ((bits.filter fun bit => !Frame.isReserved cursor.word bit).map fun bit =>
          (⟨cursor.frame, cursor.word, bit⟩ : BitAddress)).foldl FrameMemory.mark cursor.frames
        events := cursor.events ++
          (bits.filter fun bit => !Frame.isReserved cursor.word bit).map fun bit =>
            .bit ⟨cursor.frame, cursor.word, bit⟩ } := by
  induction bits generalizing cursor with
  | nil => simp
  | cons bit bits ih =>
      have hbit : bit < Word.width := hbits bit List.mem_cons_self
      have hrest : ∀ other ∈ bits, other < Word.width :=
        fun other hother => hbits other (List.mem_cons_of_mem _ hother)
      cases hreserved : Frame.isReserved cursor.word bit with
      | true =>
          let next : CheckedCursor :=
            { cursor with
              observed := cursor.observed |||
                1 <<< UInt64.ofNat (Frame.reservedPlace cursor.word bit) }
          have htake : cursor.takeBit? bit = some next := by
            simp [takeBit?, hreserved, Frame.reservedPlace_lt hbit hreserved, next]
          rw [List.foldlM_cons, htake, Option.bind_eq_bind, Option.bind_some, ih next hword hrest]
          simp [hreserved, next]
      | false =>
          have hinFrame : (⟨cursor.frame, cursor.word, bit⟩ : BitAddress).InFrame := ⟨hword, hbit⟩
          let next : CheckedCursor :=
            { cursor with
              computed := cursor.computed ^^^ Syndrome.ofBit cursor.word bit
              frames := cursor.frames.mark ⟨cursor.frame, cursor.word, bit⟩
              events := cursor.events ++ [.bit ⟨cursor.frame, cursor.word, bit⟩] }
          have htake : cursor.takeBit? bit = some next := by
            simp [takeBit?, hreserved, hinFrame.index_lt, FrameMemory.mark, next]
          rw [List.foldlM_cons, htake, Option.bind_eq_bind, Option.bind_some, ih next hword hrest]
          simp [hreserved, next]

/-- A checked cursor takes what a cursor takes. -/
theorem take?_ofCursor (order : FrameOrder) (cursor : FrameCursor) (events : List Event)
    (data : UInt32) :
    (ofCursor cursor events).take? order data =
      some (ofCursor (cursor.take order data).1 (events ++ (cursor.take order data).2)) := by
  let bits := (Frame.dataBitsOf cursor.word data).map fun bit =>
    (⟨cursor.frame, cursor.word, bit⟩ : BitAddress)
  have hframes : bits.foldl FrameMemory.mark (.ofBits (events.filterMap Event.bit?)) =
      .ofBits (events.filterMap Event.bit? ++ bits) := List.foldl_append.symm
  have hbits : (Word.setBits data).foldlM takeBit? (ofCursor cursor events) = some
      ⟨cursor.frame, cursor.word, cursor.observed ||| Frame.storedPart cursor.word data,
        cursor.computed ^^^ Syndrome.ofWord cursor.word data,
        .ofBits (events.filterMap Event.bit? ++ bits), events ++ bits.map .bit⟩ := by
    rw [foldlM_takeBit? _ cursor.word.isLt fun _ => Word.lt_width_of_mem_setBits, ← hframes,
      ← Frame.foldl_reservedPlace, ← Syndrome.foldl_ofBit, List.map_map]
    rfl
  have htold : (bits.map Event.bit).filterMap Event.bit? = bits := by
    simp [List.filterMap_map, Function.comp_def, Event.bit?]
  have hmap : (Frame.dataBitsOf cursor.word data).map (fun bit =>
      Event.bit ⟨cursor.frame, cursor.word, bit⟩) = bits.map .bit := by
    simp [bits]
  rw [take?, if_pos (show (ofCursor cursor events).word < Frame.wordCount from cursor.word.isLt),
    hbits, Option.map_some, endWord]
  by_cases hfurther : cursor.word + 1 < Frame.wordCount
  · rw [if_pos hfurther, FrameCursor.take, dif_pos hfurther]
    simp only [ofCursor, hmap, List.filterMap_append, htold]
  · rw [if_neg hfurther, FrameCursor.take, dif_neg hfurther]
    simp only [ofCursor, hmap, List.filterMap_append, htold, List.append_assoc]
    rw [List.filterMap_cons_none rfl, List.filterMap_nil, List.append_nil]
    rfl

end CheckedCursor

end ConfigStream
