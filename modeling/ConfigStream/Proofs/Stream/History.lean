import ConfigStream.Proofs.Stream.SyncSearch
import Mathlib.Data.List.DropRight
import Mathlib.Data.List.Induction

/-!
# What a reader has been through

Whatever is asked of a reader, in whatever order and whether or not it succeeds, the reader stands
in its bytes and never goes back. A read gives the four bytes at its position and goes past them, or
fewer are left and the reader stays as it is. The check sum is that of the payload words that were
read since it was last started anew, each with the register that was chosen by then
(`Reader.run_accounts`).
-/

namespace ConfigStream

namespace Reader

/-! ## Calls -/

/-- What a word is read as. -/
inductive Reading where
  /-- A packet header. -/
  | header
  /-- Payload, which counts for the check sum. -/
  | payload
  /-- Any other word. -/
  | plain
deriving DecidableEq, Repr

/-- Read a word. -/
def read (reader : Reader) : Reading → Except Fault UInt32 × Reader
  | .header => reader.nextHeader
  | .payload => reader.nextPayload
  | .plain => reader.nextWord

/-- One thing that is asked of a reader. -/
inductive Call where
  /-- Look at the next word. -/
  | peek
  /-- Whether a whole word is left. -/
  | hasWord
  | read (reading : Reading)
  | skipToSync
  | setRegister (register : Register)
  | resetCrc
deriving DecidableEq, Repr

/-- The reader after a call. To look ahead leaves it as it is. -/
def perform (reader : Reader) : Call → Reader
  | .peek | .hasWord => reader
  | .read reading => (reader.read reading).2
  | .skipToSync => reader.skipToSync.2
  | .setRegister register => reader.setRegister register
  | .resetCrc => reader.resetCrc

/-- The reader after calls. Those that fail do not stop the ones after them. -/
def run (reader : Reader) (calls : List Call) : Reader :=
  calls.foldl perform reader

/-- Calls, each with the reader that is asked to do it. -/
def asked (reader : Reader) : List Call → List (Reader × Call)
  | [] => []
  | call :: calls => (reader, call) :: (reader.perform call).asked calls

/-- The register that a call chooses. -/
def Call.register? : Call → Option Register
  | .setRegister register => some register
  | .peek | .hasWord | .read _ | .skipToSync | .resetCrc => none

/-- The register that calls choose last. If they choose none it is the one that a reader starts
with. -/
def lastChosen (calls : List Call) : Register :=
  (calls.filterMap Call.register?).getLast?.getD .crc

/-- The payload word that a call reads, after the address of the register at that time. -/
def payload? (reader : Reader) : Call → Option (UInt32 × UInt32)
  | .read .payload =>
      (reader.read .payload).1.toOption.map fun word => (reader.register.raw.toUInt32, word)
  | .read .header | .read .plain | .peek | .hasWord | .skipToSync | .setRegister _ | .resetCrc =>
      none

/-- The payload words that calls read after the last reset of the check sum, each after its
register address. -/
def payloadSinceReset (reader : Reader) (calls : List Call) : List (UInt32 × UInt32) :=
  ((reader.asked calls).rtakeWhile fun (_, call) => call != .resetCrc).filterMap
    fun (asked, call) => asked.payload? call

variable {bytes : List UInt8} {reader : Reader}

theorem run_concat (reader : Reader) (calls : List Call) (last : Call) :
    reader.run (calls ++ [last]) = (reader.run calls).perform last := by
  rw [run, List.foldl_append]
  rfl

theorem asked_concat (reader : Reader) (calls : List Call) (last : Call) :
    reader.asked (calls ++ [last]) = reader.asked calls ++ [(reader.run calls, last)] := by
  induction calls generalizing reader with
  | nil => rfl
  | cons call calls ih =>
      rw [List.cons_append, asked, ih, asked, List.cons_append]
      rfl

/-! ## Reads -/

/-- The reader after a word has been read. -/
def past (reader : Reader) (reading : Reading) (word : UInt32) : Reader :=
  { reader.skip 4 with
    crc := match reading with
      | .payload => Crc.extend reader.register.raw.toUInt32 word reader.crc
      | .header | .plain => reader.crc }

/-- However a word is read, it is the next one, and if there is none the reader stays. -/
theorem read_eq (reader : Reader) (reading : Reading) :
    reader.read reading =
      match reader.peek? with
      | some word => (.ok word, reader.past reading word)
      | none => (.error (.endInPayload reader.position), reader) := by
  cases hword : reader.peek? with
  | some word => cases reading <;> simp [read, past, nextHeader, nextPayload, nextWord, hword, skip]
  | none => cases reading <;> simp [read, nextHeader, nextPayload, nextWord, hword]

theorem read_eq_ok {reading : Reading} {word : UInt32} {next : Reader} :
    reader.read reading = (.ok word, next) ↔
      reader.peek? = some word ∧ next = reader.past reading word := by
  rw [read_eq]
  cases reader.peek? with
  | none => simp
  | some found =>
      simp only [Prod.mk.injEq, Except.ok.injEq, Option.some.injEq]
      constructor
      · intro h
        obtain ⟨rfl, rfl⟩ := h
        exact ⟨rfl, rfl⟩
      · intro h
        obtain ⟨rfl, rfl⟩ := h
        exact ⟨rfl, rfl⟩

/-- A word is left if four bytes are. -/
theorem peek?_eq_none_iff : reader.peek? = none ↔ reader.remaining < 4 :=
  Word.first?_eq_none_iff

theorem read_eq_error {reading : Reading} {fault : Fault} {next : Reader} :
    reader.read reading = (.error fault, next) ↔
      reader.remaining < 4 ∧ fault = .endInPayload reader.position ∧ next = reader := by
  rw [read_eq, ← peek?_eq_none_iff]
  cases reader.peek? with
  | none => simp [eq_comm]
  | some found => simp

/-- A reader that looks ahead sees the word that it would read. -/
theorem peek?_eq_some_iff (reading : Reading) {word : UInt32} :
    reader.peek? = some word ↔ (reader.read reading).1 = .ok word := by
  rw [read_eq]
  cases reader.peek? <;> simp

theorem hasWord_iff : reader.hasWord = true ↔ 4 ≤ reader.remaining := by
  rw [hasWord, ← Nat.not_lt, ← peek?_eq_none_iff, Option.isSome_iff_ne_none]

/-! ## One call -/

theorem StandsIn.position_add_remaining (h : reader.StandsIn bytes) :
    reader.position + reader.remaining = bytes.length := by
  rw [remaining, h.rest_eq, List.length_drop]
  exact Nat.add_sub_cancel' h.position_le

/-- Past a word the reader still stands in the bytes. -/
theorem StandsIn.past (h : reader.StandsIn bytes) {word : UInt32} (hword : reader.peek? = some word)
    (reading : Reading) : (reader.past reading word).StandsIn bytes := by
  have hstands : Word.StandsAt word bytes reader.position := by
    rw [Word.StandsAt, ← h.rest_eq]
    exact hword
  have hrest : reader.rest.drop 4 = bytes.drop (reader.position + 4) := by
    rw [h.rest_eq, List.drop_drop]
  exact ⟨hstands.le, hrest⟩

/-- No call leaves the bytes, and none goes back in them. -/
theorem StandsIn.perform (h : reader.StandsIn bytes) (call : Call) :
    (reader.perform call).StandsIn bytes ∧ reader.position ≤ (reader.perform call).position := by
  cases call with
  | peek | hasWord | setRegister | resetCrc => exact ⟨⟨h.position_le, h.rest_eq⟩, Nat.le_refl _⟩
  | read reading =>
      rw [Reader.perform, read_eq]
      cases hword : reader.peek? with
      | some word => exact ⟨h.past hword reading, Nat.le_add_right _ _⟩
      | none => exact ⟨h, Nat.le_refl _⟩
  | skipToSync =>
      rw [Reader.perform]
      rcases h.skipToSync with ⟨sync, hfirst, hskip⟩ | ⟨-, hskip⟩
      · rw [hskip]
        exact ⟨⟨hfirst.standsAt.le, rfl⟩, Nat.le_add_right_of_le hfirst.le⟩
      · rw [hskip]
        exact ⟨⟨Nat.le_refl _, List.drop_length.symm⟩, h.position_le⟩

theorem register_perform (reader : Reader) (call : Call) :
    (reader.perform call).register = call.register?.getD reader.register := by
  cases call with
  | peek | hasWord | setRegister | resetCrc => rfl
  | read reading =>
      rw [perform, read_eq]
      cases reader.peek? <;> rfl
  | skipToSync =>
      rw [perform, skipToSync]
      cases findSync reader.position reader.rest <;> rfl

/-- Apart from a reset, only payload that is read changes the check sum. -/
theorem crc_perform (reader : Reader) {call : Call} (h : call ≠ .resetCrc) :
    (reader.perform call).crc = Crc.extendAll reader.crc (reader.payload? call).toList := by
  cases call with
  | peek | hasWord | setRegister => rfl
  | resetCrc => exact absurd rfl h
  | read reading =>
      cases reading with
      | header | plain =>
          rw [perform, read_eq]
          cases reader.peek? <;> rfl
      | payload =>
          rw [perform, payload?, read_eq]
          cases reader.peek? <;> rfl
  | skipToSync =>
      rw [perform, skipToSync]
      cases findSync reader.position reader.rest <;> rfl

/-! ## All calls -/

theorem StandsIn.run (h : reader.StandsIn bytes) (calls : List Call) :
    (reader.run calls).StandsIn bytes ∧ reader.position ≤ (reader.run calls).position := by
  induction calls using List.reverseRecOn with
  | nil => exact ⟨h, Nat.le_refl _⟩
  | append_singleton calls last ih =>
      obtain ⟨hstands, hle⟩ := ih
      obtain ⟨hlast, hfurther⟩ := hstands.perform last
      rw [run_concat]
      exact ⟨hlast, Nat.le_trans hle hfurther⟩

/-- A reader is no further after the first of its calls than after all of them. -/
theorem position_run_le_of_prefix (bytes : List UInt8) {earlier calls : List Call}
    (h : earlier <+: calls) :
    ((ofBytes bytes).run earlier).position ≤ ((ofBytes bytes).run calls).position := by
  obtain ⟨later, rfl⟩ := h
  obtain ⟨hearlier, -⟩ := (standsIn_ofBytes bytes).run earlier
  have hsplit : (ofBytes bytes).run (earlier ++ later) = ((ofBytes bytes).run earlier).run later :=
    List.foldl_append
  rw [hsplit]
  exact (hearlier.run later).2

theorem register_run (bytes : List UInt8) (calls : List Call) :
    ((ofBytes bytes).run calls).register = lastChosen calls := by
  induction calls using List.reverseRecOn with
  | nil => rfl
  | append_singleton calls last ih =>
      rw [run_concat, register_perform, ih, lastChosen, lastChosen, List.filterMap_append]
      cases hchosen : last.register? <;> simp [hchosen]

/-- From a fresh check sum on, it is that of the payload since the last reset. -/
theorem crc_run (h : reader.crc = 0) (calls : List Call) :
    (reader.run calls).crc = Crc.extendAll 0 (reader.payloadSinceReset calls) := by
  -- From the end of the calls: a reset there ends what counts, anything else adds to it.
  induction calls using List.reverseRecOn with
  | nil => exact h
  | append_singleton calls last ih =>
      rw [run_concat, payloadSinceReset, asked_concat]
      by_cases hreset : last = .resetCrc
      · rw [List.rtakeWhile_concat_neg _ _ _ (by simp [hreset]), hreset]
        rfl
      · rw [List.rtakeWhile_concat_pos _ _ _ (by simp [hreset]), List.filterMap_append,
          Crc.extendAll, List.foldl_append, ← payloadSinceReset, crc_perform _ hreset, ih]
        cases hpayload : (reader.run calls).payload? last <;> simp [Crc.extendAll, hpayload]

/-- Whatever calls have been made on a reader from the start of its bytes on, its position and the
bytes left are the length of the bytes, and it has never been further. A read gives the four bytes
at its position, most significant first, and goes past them. It fails if and only if fewer than four
are left, it tells the position, and the reader stays as it is. To look ahead tells what a read
would give. The register is the one chosen last, and the check sum is that of the payload read since
the last reset, each word with the register at that time. -/
theorem run_accounts (bytes : List UInt8) (calls : List Call) :
    let start := ofBytes bytes
    let reader := start.run calls
    reader.position + reader.remaining = bytes.length ∧
      (∀ earlier, earlier <+: calls → (start.run earlier).position ≤ reader.position) ∧
      (∀ reading word next, reader.read reading = (.ok word, next) →
        next.position = reader.position + 4 ∧ ∃ first second third fourth,
          (bytes.drop reader.position).take 4 = [first, second, third, fourth] ∧
          word.toNat = first.toNat * 0x1000000 + second.toNat * 0x10000 + third.toNat * 0x100 +
            fourth.toNat) ∧
      (∀ reading fault next, reader.read reading = (.error fault, next) ↔
        reader.remaining < 4 ∧ fault = .endInPayload reader.position ∧ next = reader) ∧
      (reader.hasWord = true ↔ 4 ≤ reader.remaining) ∧
      (∀ reading word, reader.peek? = some word ↔ (reader.read reading).1 = .ok word) ∧
      reader.register = lastChosen calls ∧
      reader.crc = Crc.extendAll 0 (start.payloadSinceReset calls) := by
  intro start reader
  obtain ⟨hstands, -⟩ := (standsIn_ofBytes bytes).run calls
  refine ⟨hstands.position_add_remaining, fun _ => position_run_le_of_prefix bytes, ?_,
    fun _ _ _ => read_eq_error, hasWord_iff, fun reading _ => peek?_eq_some_iff reading,
    register_run bytes calls, crc_run rfl calls⟩
  intro reading word next hread
  obtain ⟨hword, rfl⟩ := read_eq_ok.1 hread
  obtain ⟨first, second, third, fourth, hbytes, rfl⟩ := Word.first?_eq_some_iff.1 hword
  refine ⟨rfl, first, second, third, fourth, ?_, Word.toNat_ofBytes ..⟩
  rw [← hstands.rest_eq, hbytes]

/-- A word, a byte, a sync word, a header and two words of payload of which the second is cut off. -/
def cutBytes : List UInt8 :=
  [0x00, 0x00, 0x00, 0x2A, 0xFF, 0xAA, 0x99, 0x55, 0x66, 0x30, 0x00, 0x20, 0x02,
    0x00, 0x00, 0x12, 0x34, 0x56, 0x78]

/-- A word is counted before the reset and one after it, and the last read fails. -/
def cutCalls : List Call :=
  [.setRegister .fdri, .read .payload, .skipToSync, .resetCrc, .read .header, .setRegister .far,
    .read .payload, .peek, .read .payload]

/-- The failed read is told at its position, and only the word after the reset counts. -/
theorem run_accounts_cut :
    let start := ofBytes cutBytes
    let middle := start.run (cutCalls.take 6)
    let reader := start.run cutCalls
    reader.position + reader.remaining = 19 ∧ middle.position ≤ reader.position ∧
      middle.read .payload = (.ok 0x1234, middle.past .payload 0x1234) ∧
      (middle.past .payload 0x1234).position = middle.position + 4 ∧
      reader.remaining < 4 ∧ reader.read .plain = (.error (.endInPayload 17), reader) ∧
      reader.register = .far ∧ reader.crc = Crc.extendAll 0 [(1, 0x1234)] := by
  intro start middle reader
  obtain ⟨hlength, hprefix, -, hfails, -, -, hregister, hcrc⟩ := run_accounts cutBytes cutCalls
  obtain ⟨-, -, hreads, -⟩ := run_accounts cutBytes (cutCalls.take 6)
  have hread : middle.read .payload = (.ok 0x1234, middle.past .payload 0x1234) := by
    decide +kernel
  have hleft : reader.remaining < 4 := by decide +kernel
  have hposition : reader.position = 17 := by decide +kernel
  have hcounted : start.payloadSinceReset cutCalls = [(1, 0x1234)] := by decide +kernel
  refine ⟨hlength, hprefix _ (List.take_prefix _ _), hread, (hreads _ _ _ hread).1, hleft,
    (hfails _ _ _).2 ⟨hleft, hposition ▸ rfl, rfl⟩, hregister, ?_⟩
  rw [← hcounted]
  exact hcrc

end Reader

end ConfigStream
