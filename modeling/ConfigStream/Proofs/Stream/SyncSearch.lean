import ConfigStream.Bitstream.Basic
import ConfigStream.Proofs.Decoder.Course

/-!
# Searches for the sync word

A bitstream is checked by looking at every window of four bytes (`Bitstream.checkSync_eq_windows`),
a reader goes on byte by byte, and a decoder keeps the last three bytes that it was fed. They find
the same sync word, which is the first one, and they fail on the same bytes (`syncSearches_agree`).
A reader may begin anywhere: it goes to the first sync word from its position on
(`Reader.StandsIn.skipToSync`).
-/

namespace ConfigStream

variable {bytes : List UInt8}

/-- There is only one first sync word. -/
theorem FirstSync.unique {start first second : Nat} (hfirst : FirstSync bytes start first)
    (hsecond : FirstSync bytes start second) : first = second := by
  apply Nat.le_antisymm
  · exact Nat.le_of_not_lt fun hlt => hfirst.least second hsecond.le hlt hsecond.standsAt
  · exact Nat.le_of_not_lt fun hlt => hsecond.least first hfirst.le hlt hfirst.standsAt

/-! ## Windows -/

/-- The runs of so many bytes, in the order of their offsets. -/
def windows (size : Nat) (bytes : List UInt8) : List (List UInt8) :=
  (List.range (bytes.length + 1 - size)).map fun offset => (bytes.drop offset).take size

/-- A word stands at the offsets of the windows that are its bytes. -/
theorem getElem?_windows_eq_some_iff {word : UInt32} {offset : Nat} :
    (windows 4 bytes)[offset]? = some (Word.toBytes word) ↔ Word.StandsAt word bytes offset := by
  rw [windows, List.getElem?_map, Option.map_eq_some_iff, Word.standsAt_iff]
  constructor
  · intro h
    obtain ⟨place, hplace, hwindow⟩ := h
    obtain ⟨_, rfl⟩ := List.getElem?_eq_some_iff.1 hplace
    rw [List.getElem_range] at hwindow
    exact hwindow ▸ List.take_prefix _ _
  · intro h
    have hle := (Word.standsAt_iff.2 h).le
    refine ⟨offset, List.getElem?_range (by omega), ?_⟩
    exact (List.prefix_iff_eq_take.1 h).symm

/-- The first window that is the sync word is where the search from byte to byte finds it. -/
theorem findIdx?_windows (bytes : List UInt8) :
    (windows 4 bytes).findIdx? (· == Word.toBytes syncWord) =
      (findSync 0 bytes).map Prod.fst := by
  have hwindow (offset : Nat) (h : offset < (windows 4 bytes).length) :
      ((windows 4 bytes)[offset] == Word.toBytes syncWord) = true ↔
        Word.StandsAt syncWord bytes offset := by
    rw [beq_iff_eq, ← getElem?_windows_eq_some_iff, List.getElem?_eq_getElem h, Option.some.injEq]
  cases hfound : findSync 0 bytes with
  | none =>
      have hnone := (findSync_eq_none_iff 0).1 hfound
      rw [Option.map_none, List.findIdx?_eq_none_iff]
      intro window hmem
      obtain ⟨offset, hoffset, rfl⟩ := List.mem_iff_getElem.1 hmem
      exact Bool.eq_false_iff.2 fun h => hnone offset ((hwindow offset hoffset).1 h)
  | some found =>
      obtain ⟨sync, rest⟩ := found
      obtain ⟨offset, rfl, -, hstands, hleast⟩ := findSync_eq_some_iff.1 hfound
      have hoffset : offset < (windows 4 bytes).length :=
        (List.getElem?_eq_some_iff.1 (getElem?_windows_eq_some_iff.2 hstands)).1
      rw [Nat.zero_add, Option.map_some, List.findIdx?_eq_some_iff_getElem]
      refine ⟨hoffset, (hwindow offset hoffset).2 hstands, fun earlier hearlier h => ?_⟩
      exact hleast earlier hearlier ((hwindow earlier (Nat.lt_trans hearlier hoffset)).1 h)

/-- The check of a bitstream looks at its windows: one of them has to be the sync word, and bytes
have to follow the first that is. -/
theorem Bitstream.checkSync_eq_windows (bitstream : Bitstream) :
    bitstream.checkSync =
      match (windows 4 bitstream.data).findIdx? (· == Word.toBytes syncWord) with
      | none => .error .missingSync
      | some sync => if sync + 4 < bitstream.data.length then .ok () else .error .noPackets := by
  rw [findIdx?_windows, checkSync]
  cases hfound : findSync 0 bitstream.data with
  | none => rfl
  | some found =>
      obtain ⟨sync, rest⟩ := found
      have hfirst : FirstSync bitstream.data 0 sync ∧ rest = bitstream.data.drop (sync + 4) :=
        FirstSync.of_findSync hfound
      obtain ⟨-, rfl⟩ := hfirst
      have hempty : (bitstream.data.drop (sync + 4)).isEmpty = true ↔
          ¬ sync + 4 < bitstream.data.length := by
        rw [List.isEmpty_iff, List.drop_eq_nil_iff, Nat.not_lt]
      simp only [Option.map_some, hempty, ite_not]

/-! ## Readers -/

namespace Reader

/-- A reader stands in a byte sequence: the bytes from its position on are before it. -/
structure StandsIn (reader : Reader) (bytes : List UInt8) : Prop where
  position_le : reader.position ≤ bytes.length
  rest_eq : reader.rest = bytes.drop reader.position

theorem standsIn_ofBytes (bytes : List UInt8) : (ofBytes bytes).StandsIn bytes :=
  ⟨Nat.zero_le _, rfl⟩

/-- A reader goes past the first sync word at or after its position, and without one it goes to the
end. Its check sum and its register stay. -/
theorem StandsIn.skipToSync {reader : Reader} (h : reader.StandsIn bytes) :
    (∃ sync, FirstSync bytes reader.position sync ∧ reader.skipToSync =
      (.ok sync, { reader with position := sync + 4, rest := bytes.drop (sync + 4) })) ∨
    (∀ offset, reader.position ≤ offset → ¬ Word.StandsAt syncWord bytes offset) ∧
      reader.skipToSync = (.error (.noSync reader.position),
        { reader with position := bytes.length, rest := [] }) := by
  obtain ⟨hposition, hrest⟩ := h
  cases hfound : findSync reader.position (bytes.drop reader.position) with
  | some found =>
      obtain ⟨sync, rest⟩ := found
      obtain ⟨hfirst, rfl⟩ := FirstSync.of_findSync hfound
      exact .inl ⟨sync, hfirst, by rw [Reader.skipToSync, hrest, hfound]⟩
  | none =>
      refine .inr ⟨findSync_drop_eq_none_iff.1 hfound, ?_⟩
      have hend : reader.position + reader.remaining = bytes.length := by
        rw [remaining, hrest, List.length_drop]
        omega
      have hdrained : reader.rest.drop reader.remaining = [] := List.drop_length
      rw [Reader.skipToSync, hrest, hfound, skip, hend, hdrained]

/-- From the start of the bytes a reader goes past the first sync word. -/
theorem skipToSync_ofBytes {sync : Nat} (hfirst : FirstSync bytes 0 sync) :
    (ofBytes bytes).skipToSync = (.ok sync, (ofBytes bytes).skip (sync + 4)) := by
  rcases (standsIn_ofBytes bytes).skipToSync with ⟨other, hother, hskip⟩ | ⟨hnone, -⟩
  · obtain rfl : other = sync := hother.unique hfirst
    rw [hskip, skip, ofBytes, Nat.zero_add]
  · exact absurd hfirst.standsAt (hnone sync (Nat.zero_le _))

end Reader

/-! ## Agreement -/

variable {bitstream : Bitstream}

/-- There is a first sync word where its bytes stand anywhere. -/
theorem exists_firstSync_iff :
    (∃ sync, FirstSync bytes 0 sync) ↔ Word.toBytes syncWord <:+: bytes := by
  rw [← Word.exists_standsAt_iff]
  constructor
  · intro h
    obtain ⟨sync, hfirst⟩ := h
    exact ⟨sync, hfirst.standsAt⟩
  · intro h
    obtain ⟨offset, hstands⟩ := h
    rcases (Reader.standsIn_ofBytes bytes).skipToSync with ⟨sync, hfirst, -⟩ | ⟨hnone, -⟩
    · exact ⟨sync, hfirst⟩
    · exact absurd hstands (hnone offset (Nat.zero_le _))

/-- What the searches make of bytes without a sync word. -/
theorem searches_of_noSync (order : FrameOrder)
    (hnone : ¬ ∃ sync, FirstSync bitstream.data 0 sync) :
    (windows 4 bitstream.data).findIdx? (· == Word.toBytes syncWord) = none ∧
      bitstream.checkSync = .error .missingSync ∧
      decode order bitstream.data = .error (.noSync 0) ∧
      (Reader.ofBytes bitstream.data).skipToSync.1 = .error (.noSync 0) := by
  have hstands : ∀ offset, ¬ Word.StandsAt syncWord bitstream.data offset := by
    rwa [exists_firstSync_iff, ← Word.exists_standsAt_iff, not_exists] at hnone
  have hfound := (findSync_eq_none_iff 0).2 hstands
  have hwindows : (windows 4 bitstream.data).findIdx? (· == Word.toBytes syncWord) = none := by
    rw [findIdx?_windows, hfound, Option.map_none]
  refine ⟨hwindows, by rw [Bitstream.checkSync_eq_windows, hwindows],
    Decoder.decode_of_noSync order hfound, ?_⟩
  rcases (Reader.standsIn_ofBytes bitstream.data).skipToSync with ⟨sync, hfirst, -⟩ | ⟨-, hskip⟩
  · exact absurd ⟨sync, hfirst⟩ hnone
  · exact congrArg Prod.fst hskip

/-- What the searches make of the first sync word. -/
theorem searches_of_firstSync (order : FrameOrder) {sync : Nat}
    (hfirst : FirstSync bitstream.data 0 sync) :
    (windows 4 bitstream.data).findIdx? (· == Word.toBytes syncWord) = some sync ∧
      (bitstream.checkSync =
        if sync + 4 < bitstream.data.length then .ok () else .error .noPackets) ∧
      (∀ offset, decode order bitstream.data ≠ .error (.noSync offset)) ∧
      (∀ report, decode order bitstream.data = .ok report →
        report.events.head? = some (.diagnostic (.syncAt sync))) := by
  have hfound : findSync 0 bitstream.data = some (sync, bitstream.data.drop (sync + 4)) := by
    rw [findSync_eq hfirst.standsAt fun earlier => hfirst.least earlier (Nat.zero_le _),
      Nat.zero_add]
  have hwindows : (windows 4 bitstream.data).findIdx? (· == Word.toBytes syncWord) = some sync := by
    rw [findIdx?_windows, hfound, Option.map_some]
  refine ⟨hwindows, by rw [Bitstream.checkSync_eq_windows, hwindows], ?_, ?_⟩
  · intro offset
    rw [Decoder.decode_of_findSync order hfound]
    cases (Course.ofBytes (sync + 4) (bitstream.data.drop (sync + 4))).ending <;>
      simp [Ending.finish, Except.map]
  · exact fun report hreport => Decoder.head?_events_of_findSync hfound hreport

/-- The searches fail where there is no first sync word, and only there. -/
theorem searches_fail_iff (bitstream : Bitstream) (order : FrameOrder) :
    let hasSync := ∃ sync, FirstSync bitstream.data 0 sync
    ((windows 4 bitstream.data).findIdx? (· == Word.toBytes syncWord) = none ↔ ¬ hasSync) ∧
      (bitstream.checkSync = .error .missingSync ↔ ¬ hasSync) ∧
      ((∃ offset, decode order bitstream.data = .error (.noSync offset)) ↔ ¬ hasSync) ∧
      ((∃ fault, (Reader.ofBytes bitstream.data).skipToSync.1 = .error fault) ↔ ¬ hasSync) := by
  intro hasSync
  by_cases h : hasSync
  · obtain ⟨sync, hfirst⟩ := h
    obtain ⟨hwindow, hcheck, hdecode, -⟩ := searches_of_firstSync order hfirst
    have hseen : (windows 4 bitstream.data).findIdx? (· == Word.toBytes syncWord) ≠ none := by
      rw [hwindow]
      simp
    have hfound : bitstream.checkSync ≠ .error .missingSync := by
      rw [hcheck]
      split <;> simp
    have hskip : ¬ ∃ fault, (Reader.ofBytes bitstream.data).skipToSync.1 = .error fault := by
      rw [Reader.skipToSync_ofBytes hfirst]
      simp
    have hnot : ¬ ¬ hasSync := not_not_intro ⟨sync, hfirst⟩
    exact ⟨iff_of_false hseen hnot, iff_of_false hfound hnot,
      iff_of_false (not_exists.2 hdecode) hnot, iff_of_false hskip hnot⟩
  · obtain ⟨hwindow, hcheck, hdecode, hskip⟩ := searches_of_noSync order h
    exact ⟨iff_of_true hwindow h, iff_of_true hcheck h, iff_of_true ⟨0, hdecode⟩ h,
      iff_of_true ⟨_, hskip⟩ h⟩

/-- All searches for the sync word agree. They fail exactly on the byte sequences in which its four
bytes stand nowhere. In any other they find the least offset at which it stands: the first window
that is the sync word begins there, a reader goes past it, a decoder begins with it, and the check
of a bitstream, which looks at the windows, passes if bytes follow it. A reader that stands anywhere in the bytes goes to the
first sync word from there on, or to the end if there is none, and keeps its check sum. -/
theorem syncSearches_agree (bitstream : Bitstream) (order : FrameOrder) :
    let bytes := bitstream.data
    let start := Reader.ofBytes bytes
    let hasSync := [0xAA, 0x99, 0x55, 0x66] <:+: bytes
    let window := (windows 4 bytes).findIdx? (· == [0xAA, 0x99, 0x55, 0x66])
    (bitstream.checkSync =
        match window with
        | none => .error .missingSync
        | some sync => if sync + 4 < bytes.length then .ok () else .error .noPackets) ∧
      (window = none ↔ ¬ hasSync) ∧
      (bitstream.checkSync = .error .missingSync ↔ ¬ hasSync) ∧
      ((∃ offset, decode order bytes = .error (.noSync offset)) ↔ ¬ hasSync) ∧
      ((∃ fault, start.skipToSync.1 = .error fault) ↔ ¬ hasSync) ∧
      (hasSync → ∃ sync, FirstSync bytes 0 sync) ∧
      (∀ sync, FirstSync bytes 0 sync →
        window = some sync ∧
        start.skipToSync = (.ok sync, start.skip (sync + 4)) ∧
        (∀ report, decode order bytes = .ok report →
          report.events.head? = some (.diagnostic (.syncAt sync))) ∧
        (bitstream.checkSync = .ok () ↔ sync + 4 < bytes.length)) ∧
      ∀ reader : Reader, reader.StandsIn bytes →
        (∃ sync, FirstSync bytes reader.position sync ∧ reader.skipToSync =
          (.ok sync, { reader with position := sync + 4, rest := bytes.drop (sync + 4) })) ∨
        (∀ offset, reader.position ≤ offset → ¬ Word.StandsAt syncWord bytes offset) ∧
          reader.skipToSync = (.error (.noSync reader.position),
            { reader with position := bytes.length, rest := [] }) := by
  intro bytes start hasSync window
  have hsome : hasSync ↔ ∃ sync, FirstSync bytes 0 sync := exists_firstSync_iff.symm
  obtain ⟨hnone, hcheck, hdecode, hskip⟩ := searches_fail_iff bitstream order
  rw [← hsome] at hnone hcheck hdecode hskip
  refine ⟨bitstream.checkSync_eq_windows, hnone, hcheck, hdecode, hskip, hsome.1,
    fun sync hfirst => ?_, fun reader => (·.skipToSync)⟩
  obtain ⟨hwindow, hpass, -, hhead⟩ := searches_of_firstSync order hfirst
  refine ⟨hwindow, Reader.skipToSync_ofBytes hfirst, hhead, ?_⟩
  rw [hpass]
  split
  · rename_i hlt
    exact iff_of_true rfl hlt
  · rename_i hle
    exact iff_of_false (by simp) hle

/-- Of two sync words, the first after a byte that it might begin with and the second at the end,
all searches find the first, and a reader between them goes to the second. -/
theorem syncSearches_agree_between :
    let bytes : List UInt8 := [0xAA, 0xAA, 0x99, 0x55, 0x66, 0xAA, 0x99, 0x55, 0x66]
    let bitstream : Bitstream := { data := bytes, part := "" }
    let reader : Reader := ⟨2, bytes.drop 2, 7, .fdri⟩
    FirstSync bytes 0 1 ∧ FirstSync bytes 2 5 ∧ reader.StandsIn bytes ∧
      bitstream.checkSync = .ok () ∧
      (∀ order report, decode order bytes = .ok report →
        report.events.head? = some (.diagnostic (.syncAt 1))) ∧
      (Reader.ofBytes bytes).skipToSync = (.ok 1, (Reader.ofBytes bytes).skip 5) ∧
      reader.skipToSync = (.ok 5, ⟨9, [], 7, .fdri⟩) := by
  intro bytes bitstream reader
  have hfirst : FirstSync bytes 0 1 := by
    have hleast : ∀ earlier < 1, ¬ Word.StandsAt syncWord bytes earlier := by decide
    exact ⟨by decide, by decide, fun earlier _ => hleast earlier⟩
  have hsecond : FirstSync bytes 2 5 := by
    have hleast : ∀ earlier < 5, 2 ≤ earlier → ¬ Word.StandsAt syncWord bytes earlier := by decide
    exact ⟨by decide, by decide, fun earlier hle hlt => hleast earlier hlt hle⟩
  have hreader : reader.StandsIn bytes := ⟨by decide, rfl⟩
  have hagree (order : FrameOrder) := syncSearches_agree bitstream order
  obtain ⟨-, -, -, -, -, -, hsearch, hskip⟩ := hagree .empty
  obtain ⟨-, hpass, -, hcheck⟩ := hsearch 1 hfirst
  refine ⟨hfirst, hsecond, hreader, hcheck.2 (by decide), fun order => ?_, hpass, ?_⟩
  · obtain ⟨-, -, -, -, -, -, hdecoder, -⟩ := hagree order
    exact (hdecoder 1 hfirst).2.2.1
  · rcases hskip reader hreader with ⟨sync, hsync, hfound⟩ | ⟨hnone, -⟩
    · obtain rfl : sync = 5 := hsync.unique hsecond
      exact hfound
    · exact absurd hsecond.standsAt (hnone 5 (by decide))

end ConfigStream
