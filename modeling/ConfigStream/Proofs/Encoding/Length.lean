import ConfigStream.Proofs.Encoding.FirstSync

/-!
# When a stream is made, and how long it is

A writer appends what its calls are long (`Writer.size_run`), so the length of a stream is counted
call by call. Making a bitstream fails for a memory without a frame and for a header string that is
too long, and for nothing else (`ofMemory_outcome`).
-/

namespace ConfigStream

/-- The header strings with their tags, in stream order. -/
def Profile.fields (profile : Profile) : List (UInt8 × String) :=
  [(0x61, profile.design), (0x62, profile.part), (0x63, profile.date), (0x64, profile.time)]

/-- The first header string of more than 65534 bytes, with its tag. -/
def Profile.firstTooLong? (profile : Profile) : Option (UInt8 × String) :=
  profile.fields.find? fun field => 65534 < field.2.utf8ByteSize

theorem Profile.map_snd_fields (profile : Profile) :
    profile.fields.map Prod.snd = profile.texts := rfl

namespace Writer

/-! ## Calls -/

/-- The bytes that a call appends. -/
def Call.byteLength : Call → Nat
  | .raw bytes => bytes.length
  | .field _ value => value.utf8ByteSize + 4
  | .word _ | .payload _ | .nop => 4
  | .short _ _ words | .long words => 4 + 4 * words.length
  | .nops count => 4 * count
  | .register _ _ | .command _ | .flush => 8
  | .resetCrc => 0

theorem size_raw (writer : Writer) (bytes : List UInt8) :
    (writer.raw bytes).bytes.size = writer.bytes.size + bytes.length := by
  rw [raw, ← Array.length_toList, Array.toList_appendList, List.length_append, Array.length_toList]

theorem size_word (writer : Writer) (word : UInt32) :
    (writer.word word).bytes.size = writer.bytes.size + 4 := by
  rw [Writer.word, size_raw, Word.length_toBytes]

theorem size_payload (writer : Writer) (words : List UInt32) :
    (writer.payload words).bytes.size = writer.bytes.size + 4 * words.length := by
  rw [← Array.length_toList, bytes_payload, List.length_append, Word.length_flatMap_toBytes,
    Array.length_toList]

theorem size_nops (writer : Writer) (count : Nat) :
    (writer.nops count).bytes.size = writer.bytes.size + 4 * count := by
  induction count generalizing writer with
  | zero => rfl
  | succ count ih =>
      have hnop : writer.nop.bytes.size = writer.bytes.size + 4 :=
        size_word (writer.address .crc) _
      rw [nops, ih, hnop]
      omega

theorem size_writeTo (writer : Writer) (register : Register) (value : UInt32) :
    (writer.writeTo register value).bytes.size = writer.bytes.size + 8 := by
  have hheader := size_word (writer.address register) (Header.write register 1).encode
  have hvalue := size_word ((writer.address register).word (Header.write register 1).encode) value
  exact hvalue.trans (congrArg (· + 4) hheader)

/-- A call that is made appends its bytes. -/
theorem size_perform {writer next : Writer} {call : Call} (h : writer.perform call = .ok next) :
    next.bytes.size = writer.bytes.size + call.byteLength := by
  cases call with
  | raw bytes =>
      obtain rfl := Except.ok.inj h
      exact size_raw writer bytes
  | field tag value =>
      rw [perform, Encoding.field_eq] at h
      split at h
      · obtain rfl := Except.ok.inj h
        rw [size_raw, Encoding.length_fieldBytes, Call.byteLength]
      · cases h
  | word word =>
      obtain rfl := Except.ok.inj h
      exact size_word writer word
  | payload word =>
      obtain rfl := Except.ok.inj h
      exact size_word writer word
  | short opcode register words =>
      rw [perform, short] at h
      split at h
      · obtain rfl := Except.ok.inj h
        rw [size_payload, size_word, Call.byteLength, ← Nat.add_assoc]
        rfl
      · cases h
  | long words =>
      obtain rfl := Except.ok.inj h
      rw [long, size_payload, size_word, Call.byteLength, ← Nat.add_assoc]
  | nop =>
      obtain rfl := Except.ok.inj h
      exact size_word (writer.address .crc) _
  | nops count =>
      obtain rfl := Except.ok.inj h
      exact size_nops writer count
  | register register value =>
      obtain rfl := Except.ok.inj h
      exact size_writeTo writer register value
  | command command =>
      obtain rfl := Except.ok.inj h
      exact size_writeTo writer .cmd command.raw
  | flush =>
      obtain rfl := Except.ok.inj h
      exact size_writeTo writer .crc writer.crc
  | resetCrc =>
      obtain rfl := Except.ok.inj h
      rfl

/-- The bytes that calls append. -/
def byteLength (calls : List Call) : Nat := (calls.map Call.byteLength).sum

/-- Calls that are made append their bytes. -/
theorem size_run {writer last : Writer} {calls : List Call} (h : writer.run calls = .ok last) :
    last.bytes.size = writer.bytes.size + byteLength calls := by
  induction calls generalizing writer with
  | nil =>
      obtain rfl := Except.ok.inj h
      rfl
  | cons call calls ih =>
      rw [run] at h
      cases hcall : writer.perform call with
      | error fault => simp [hcall] at h
      | ok next =>
          simp only [hcall] at h
          rw [ih h, size_perform hcall, byteLength, byteLength, List.map_cons, List.sum_cons,
            Nat.add_assoc]

theorem byteLength_append (first second : List Call) :
    byteLength (first ++ second) = byteLength first + byteLength second := by
  simp [byteLength]

end Writer

namespace Encoding

open Writer

/-! ## The parts of a script -/

theorem byteLength_header (profile : Profile) :
    byteLength (header profile) = syncOffset profile + 4 := by
  simp only [byteLength, header, magic, busWidthPattern, Call.byteLength, syncOffset,
    Profile.texts, List.map_cons, List.map_nil, List.sum_cons, List.sum_nil, List.length_cons,
    List.length_nil, List.length_replicate]
  omega

theorem byteLength_preamble (profile : Profile) (first : UInt32) :
    byteLength (preamble profile first) = 188 := by
  simp only [byteLength, preamble, Call.byteLength, List.map_cons, List.map_nil, List.sum_cons,
    List.sum_nil]
  omega

theorem byteLength_epilogue (profile : Profile) :
    byteLength (epilogue profile) = 212 + 4 * profile.trailingNops := by
  simp only [byteLength, epilogue, Call.byteLength, List.map_cons, List.map_nil, List.sum_cons,
    List.sum_nil]
  omega

/-- A frame takes its words, and five more with its address and its check sum. -/
theorem byteLength_frameGroup (address : UInt32) (frame : Frame) :
    byteLength (frameGroup address frame) = 392 := by
  have hwords : frame.words.toList.length = 93 := frame.words.length_toList
  simp only [byteLength, frameGroup, Call.byteLength, List.map_cons, List.map_nil, List.sum_cons,
    List.sum_nil, hwords]
  omega

theorem byteLength_rowEnd (order : FrameOrder) (address : UInt32) :
    byteLength (rowEnd order address) =
      392 + if (order.next? address).isSome then 20 else 0 := by
  rw [rowEnd, byteLength_append, byteLength_frameGroup]
  cases order.next? address <;> rfl

/-- Whether an address ends a row and another follows it. -/
def leadsOn (order : FrameOrder) (address : UInt32) : Bool :=
  order.isRowEnd address && (order.next? address).isSome

theorem byteLength_frame (order : FrameOrder) (address : UInt32) (contents : Frame) :
    byteLength (frame order address contents) =
      392 * (1 + if order.isRowEnd address then 1 else 0) +
        20 * if leadsOn order address then 1 else 0 := by
  rw [frame, byteLength_append, byteLength_frameGroup, leadsOn]
  cases order.isRowEnd address with
  | false => rfl
  | true =>
      simp only [if_true, Bool.true_and, byteLength_rowEnd]
      split <;> rfl

/-- Every frame, and every frame of zeros, takes 98 words, and the way to a next row takes five. -/
theorem byteLength_frames (entries : List (UInt32 × Frame)) (order : FrameOrder) :
    byteLength (entries.flatMap fun entry => frame order entry.1 entry.2) =
      392 * (entries.length + (entries.map Prod.fst).countP order.isRowEnd) +
        20 * (entries.map Prod.fst).countP (leadsOn order) := by
  induction entries with
  | nil => rfl
  | cons entry entries ih =>
      rw [List.flatMap_cons, byteLength_append, ih, byteLength_frame, List.map_cons,
        List.countP_cons, List.countP_cons, List.length_cons]
      omega

/-- The bytes of a script. -/
theorem byteLength_script (profile : Profile) (memory : FrameMemory) (order : FrameOrder)
    (first : UInt32) :
    byteLength (script profile memory order first) =
      518 + (profile.texts.map String.utf8ByteSize).sum +
        392 * (memory.size + memory.addresses.countP order.isRowEnd) +
        20 * memory.addresses.countP (leadsOn order) + 4 * profile.trailingNops := by
  rw [script_eq, body, frames, byteLength_append, byteLength_append, byteLength_append,
    byteLength_header, byteLength_preamble, byteLength_epilogue, byteLength_frames,
    memory.map_fst_toList, memory.length_toList, syncOffset]
  omega

/-! ## Header strings that do not fit -/

/-- Of header strings of which one is too long, the first of these fails. -/
theorem run_fields_of_find {fields : List (UInt8 × String)} {tag : UInt8} {text : String}
    (h : fields.find? (fun field => 65534 < field.2.utf8ByteSize) = some (tag, text))
    (writer : Writer) (calls : List Call) :
    writer.run (fields.map (fun field => .field field.1 field.2) ++ calls) =
      .error (.fieldTooLong tag text.utf8ByteSize) := by
  have hlimit : Text.limit16 = 65536 := rfl
  induction fields generalizing writer with
  | nil => cases h
  | cons field fields ih =>
      rw [List.map_cons, List.cons_append, run, perform, field_eq]
      by_cases hlong : 65534 < field.2.utf8ByteSize
      · rw [List.find?_cons_of_pos (by simpa using hlong)] at h
        obtain rfl := Option.some.inj h
        rw [if_neg (by omega)]
      · rw [List.find?_cons_of_neg (by simpa using hlong)] at h
        rw [if_pos (by omega)]
        exact ih h _

/-- A header is not written if one of its strings is too long. -/
theorem run_header_of_tooLong {profile : Profile} {tag : UInt8} {text : String}
    (h : profile.firstTooLong? = some (tag, text)) (writer : Writer) :
    writer.run (header profile) = .error (.fieldTooLong tag text.utf8ByteSize) :=
  run_fields_of_find h (writer.raw magic) _

/-- The header strings fit if none is too long. -/
theorem textsFit_of_firstTooLong {profile : Profile} (h : profile.firstTooLong? = none) :
    profile.TextsFit := by
  intro text htext
  obtain ⟨field, hfield, rfl⟩ := List.mem_map.1 (profile.map_snd_fields ▸ htext)
  have hshort := List.find?_eq_none.1 h field hfield
  simp only [decide_eq_true_eq, Nat.not_lt] at hshort
  exact Nat.lt_succ_of_le (Nat.succ_le_succ hshort)

end Encoding

/-! ## Bitstreams -/

open Encoding

variable {profile : Profile} {memory : FrameMemory} {order : FrameOrder}

/-- A memory with a frame is not encoded if a header string is too long. -/
theorem encode_of_tooLong (hmemory : memory.isEmpty = false) {tag : UInt8} {text : String}
    (h : profile.firstTooLong? = some (tag, text)) :
    encode profile memory order = .error (.fieldTooLong tag text.utf8ByteSize) := by
  obtain ⟨first, hfirst⟩ := FrameMemory.exists_first? hmemory
  simp only [encode, hfirst, script_eq, Writer.run_append, run_header_of_tooLong h, Except.bind]

/-- A stream that was encoded is as long as its script. -/
theorem length_encode {bytes : List UInt8} (h : encode profile memory order = .ok bytes) :
    bytes.length = 518 + (profile.texts.map String.utf8ByteSize).sum +
      392 * (memory.size + memory.addresses.countP order.isRowEnd) +
      20 * memory.addresses.countP (leadsOn order) + 4 * profile.trailingNops := by
  unfold encode at h
  cases hfirst : memory.first? with
  | none => simp [hfirst] at h
  | some first =>
      simp only [hfirst] at h
      cases hrun : ({} : Writer).run (script profile memory order first) with
      | error fault => simp [hrun] at h
      | ok writer =>
          simp only [hrun] at h
          obtain rfl := Except.ok.inj h
          rw [Array.length_toList, Writer.size_run hrun, byteLength_script]
          exact Nat.zero_add _

/-- There is no bitstream of a memory without a frame, and none if a header string is too long: the
first such string is named. There is one otherwise. Its length and its counts follow from the
profile, the addresses and the order, and it passes its own check. -/
theorem ofMemory_outcome (profile : Profile) (memory : FrameMemory) (order : FrameOrder) :
    (Bitstream.ofMemory profile memory order = .error .noFrames ↔ memory.isEmpty = true) ∧
      (memory.isEmpty = false →
        (∀ tag text, profile.firstTooLong? = some (tag, text) →
          Bitstream.ofMemory profile memory order =
            .error (.fieldTooLong tag text.utf8ByteSize)) ∧
        (profile.firstTooLong? = none →
          ∃ bitstream, Bitstream.ofMemory profile memory order = .ok bitstream ∧
            bitstream.data.length = 518 + (profile.texts.map String.utf8ByteSize).sum +
              392 * (memory.size + memory.addresses.countP order.isRowEnd) +
              20 * memory.addresses.countP (leadsOn order) + 4 * profile.trailingNops ∧
            bitstream.metadata = ⟨memory.size, memory.addresses.countP order.isRowEnd,
              bitstream.data.length⟩ ∧
            bitstream.checkSync = .ok ())) := by
  have hlong (hmemory : memory.isEmpty = false) (tag : UInt8) (text : String)
      (h : profile.firstTooLong? = some (tag, text)) :
      Bitstream.ofMemory profile memory order = .error (.fieldTooLong tag text.utf8ByteSize) := by
    rw [Bitstream.ofMemory, encode_of_tooLong hmemory h]
  have hfits (hmemory : memory.isEmpty = false) (h : profile.firstTooLong? = none) :
      ∃ bytes, encode profile memory order = .ok bytes := by
    obtain ⟨first, hfirst⟩ := FrameMemory.exists_first? hmemory
    exact encode_of_fits hfirst (textsFit_of_firstTooLong h)
  refine ⟨⟨fun hnone => ?_, fun hmemory => ?_⟩, fun hmemory => ⟨hlong hmemory, fun h => ?_⟩⟩
  · -- With a frame, a bitstream is made or another fault is given.
    cases hmemory : memory.isEmpty with
    | true => rfl
    | false =>
        cases h : profile.firstTooLong? with
        | some field => cases (hlong hmemory field.1 field.2 h).symm.trans hnone
        | none =>
            obtain ⟨bytes, hbytes⟩ := hfits hmemory h
            cases (Bitstream.ofMemory_of_encode hbytes).symm.trans hnone
  · rw [Bitstream.ofMemory, encode, memory.first?_eq_none.2 hmemory]
  · obtain ⟨bytes, hbytes⟩ := hfits hmemory h
    have hmade := Bitstream.ofMemory_of_encode hbytes
    exact ⟨_, hmade, length_encode hbytes, rfl, checkSync_ofMemory hmade⟩

/-- The bitstream of two frames that each end a row, of which the second follows the first. Its
header has a sync word in the announced length. -/
theorem ofMemory_outcome_twoRows :
    ∃ bitstream,
      Bitstream.ofMemory { declaredLength := 0xAA995566 } (FrameMemory.ofAddresses [0, 0x40000])
        (.ofAddresses [0, 0x40000]) = .ok bitstream ∧
      bitstream.data.length = 3780 ∧ bitstream.metadata = ⟨2, 2, 3780⟩ ∧
      bitstream.checkSync = .ok () := by
  have hmemory : (FrameMemory.ofAddresses [0, 0x40000]).isEmpty = false := by decide +kernel
  have hfits : ({ declaredLength := 0xAA995566 } : Profile).firstTooLong? = none := by
    decide +kernel
  obtain ⟨bitstream, hmade, hlength, hmetadata, hcheck⟩ :=
    ((ofMemory_outcome { declaredLength := 0xAA995566 } (FrameMemory.ofAddresses [0, 0x40000])
      (.ofAddresses [0, 0x40000])).2 hmemory).2 hfits
  have hcount : bitstream.data.length = 3780 := by
    rw [hlength]
    decide +kernel
  rw [hcount] at hmetadata
  exact ⟨bitstream, hmade, hcount, hmetadata, hcheck⟩

end ConfigStream
