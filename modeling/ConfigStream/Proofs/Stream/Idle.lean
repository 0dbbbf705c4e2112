import ConfigStream.Proofs.Checksum.Crc
import ConfigStream.Proofs.Stream.Agreement

/-!
# Packets that do nothing and the check sum

A packet that does nothing leaves the check sum of a writer, but it moves the writer to the check
sum register, so payload that goes on after it is counted for another register than before. Packets
that do nothing can be put between calls without a change of any later check sum if a register is
addressed before payload goes on, or if the register left behind has the address bits of the check
sum register; otherwise the check sum changes with the first payload that goes on
(`Writer.crcs_idle`).
-/

namespace ConfigStream

/-- The address bits of a register that take part in the check sum. -/
def Register.checkedBits (register : Register) : Nat := register.raw.toNat % 2 ^ Crc.addressBits

theorem Register.toNat_checkedBits (register : Register) :
    register.raw.toUInt32.toNat % 2 ^ Crc.addressBits = register.checkedBits := by
  rw [UInt16.toNat_toUInt32, checkedBits]

namespace Writer

/-! ## Calls that move a writer and payload that goes on -/

namespace Call

/-- Whether a call moves the writer to a register. -/
def moves (call : Call) : Bool := call.isAddressing || call.isIdle

/-- The payload of a call that is counted for the register that the call finds. -/
def further : Call → List UInt32
  | .long words => words
  | .payload value => [value]
  | _ => []

end Call

/-- Whether payload goes on before one of the calls moves the writer to a register. -/
def goesOn : List Call → Bool
  | [] => false
  | call :: calls => !call.further.isEmpty || (!call.moves && goesOn calls)

/-- The check sums of a writer before calls and after each of them. -/
def crcs (writer : Writer) (calls : List Call) : List UInt32 :=
  (calls.scanl after writer).map crc

variable {writer other : Writer} {call : Call} {calls : List Call}

@[simp]
theorem crcs_cons (writer : Writer) (call : Call) (calls : List Call) :
    writer.crcs (call :: calls) = writer.crc :: (writer.after call).crcs calls := by
  simp [crcs]

theorem head?_crcs (writer : Writer) (calls : List Call) :
    (writer.crcs calls).head? = some writer.crc := by
  cases calls with
  | nil => rfl
  | cons call calls => rw [crcs_cons, List.head?_cons]

/-- The check sums that are written out are among all. -/
theorem flushed_eq (writer : Writer) (calls : List Call) :
    writer.flushed calls =
      ((writer.crcs calls).zip calls).filterMap fun (crc, call) =>
        if call = .flush then some crc else none := by
  induction calls generalizing writer with
  | nil => rfl
  | cons call calls ih =>
      rw [flushed_cons, ih, crcs_cons, List.zip_cons_cons]
      by_cases hflush : call = .flush <;> simp [hflush]

theorem crc_nops (writer : Writer) (count : Nat) : (writer.nops count).crc = writer.crc :=
  (nops_eq writer count).2

theorem register_nops (writer : Writer) {count : Nat} (h : count ≠ 0) :
    (writer.nops count).register = .crc := by
  obtain ⟨count, rfl⟩ := Nat.exists_eq_succ_of_ne_zero h
  induction count generalizing writer with
  | zero => rfl
  | succ count ih => exact ih writer.nop (Nat.succ_ne_zero _)

/-- Packets that do nothing, one after another. -/
theorem foldl_after_nop (writer : Writer) (count : Nat) :
    (List.replicate count .nop).foldl after writer = writer.nops count := by
  induction count generalizing writer with
  | zero => rfl
  | succ count ih => exact ih writer.nop

/-! ## One call -/

/-- A call that moves writers moves them to one register and counts its payload for that. -/
theorem after_of_moves (h : call.moves = true) (hcrc : writer.crc = other.crc) :
    (writer.after call).crc = (other.after call).crc ∧
      (writer.after call).register = (other.after call).register := by
  cases call with
  | short opcode target words =>
      have hfits : words.length ≤ Header.type1Limit := by
        simpa [Call.moves, Call.isAddressing, Call.isIdle] using h
      have hafter (writer : Writer) : writer.after (.short opcode target words) =
          ((writer.address target).word (Header.type1 opcode target words.length).encode).payload
            words := after_eq (if_pos hfits)
      rw [hafter, hafter, crc_payload, crc_payload, register_payload, register_payload]
      exact ⟨congrArg (Crc.extendAll · _) hcrc, rfl⟩
  | register target value =>
      exact ⟨congrArg (Crc.extend target.raw.toUInt32 value) hcrc, rfl⟩
  | command issued =>
      exact ⟨congrArg (Crc.extend Register.cmd.raw.toUInt32 issued.raw) hcrc, rfl⟩
  | flush => exact ⟨rfl, rfl⟩
  | nop => exact ⟨hcrc, rfl⟩
  | nops count =>
      have hcount : count ≠ 0 := by simpa [Call.moves, Call.isAddressing, Call.isIdle] using h
      have hafter (writer : Writer) : writer.after (.nops count) = writer.nops count := rfl
      rw [hafter, hafter, crc_nops, crc_nops, register_nops _ hcount, register_nops _ hcount]
      exact ⟨hcrc, rfl⟩
  | raw | field | word | payload | long | resetCrc => cases h

/-- A call that does not move a writer leaves its register, and it counts payload that goes on for
that register or resets the check sum. -/
theorem after_of_stays (h : call.moves = false) (writer : Writer) :
    (writer.after call).register = writer.register ∧
      (writer.after call).crc =
        if call = .resetCrc then 0
        else Crc.extendAll writer.crc
          (call.further.map fun word => (writer.register.raw.toUInt32, word)) := by
  cases call with
  | short opcode target words =>
      have hfits : ¬ words.length ≤ Header.type1Limit := by
        simpa [Call.moves, Call.isAddressing, Call.isIdle] using h
      have hafter : writer.after (.short opcode target words) = writer := by
        rw [after, perform, short, if_neg hfits]
      rw [hafter]
      exact ⟨rfl, rfl⟩
  | field tag value =>
      by_cases hfits : value.toUTF8.data.toList.length + 1 < Text.limit16
      · have hnext : writer.perform (.field tag value) = .ok _ := if_pos hfits
        rw [after_eq hnext]
        exact ⟨rfl, rfl⟩
      · have hafter : writer.after (.field tag value) = writer := by
          rw [after, perform, field, if_neg hfits]
        rw [hafter]
        exact ⟨rfl, rfl⟩
  | long words => exact ⟨register_payload (writer.word _) words, crc_payload (writer.word _) words⟩
  | nops count =>
      obtain rfl : count = 0 := by simpa [Call.moves, Call.isAddressing, Call.isIdle] using h
      exact ⟨rfl, rfl⟩
  | raw | word | payload | resetCrc => exact ⟨rfl, rfl⟩
  | register | command | flush | nop => cases h

/-- Only a call that does not move the writer lets payload go on. -/
theorem Call.further_of_moves (h : call.moves = true) : call.further = [] := by
  cases call with
  | long | payload => cases h
  | _ => rfl

/-- Writers whose registers have the same checked bits have the same check sum and such registers
after a call. -/
theorem after_of_checkedBits (hcrc : writer.crc = other.crc)
    (hbits : writer.register.checkedBits = other.register.checkedBits) (call : Call) :
    (writer.after call).crc = (other.after call).crc ∧
      (writer.after call).register.checkedBits = (other.after call).register.checkedBits := by
  cases hmoves : call.moves with
  | true =>
      obtain ⟨hsum, hregister⟩ := after_of_moves hmoves hcrc
      exact ⟨hsum, congrArg Register.checkedBits hregister⟩
  | false =>
      obtain ⟨hregister, hsum⟩ := after_of_stays hmoves writer
      obtain ⟨hregister', hsum'⟩ := after_of_stays hmoves other
      rw [← Register.toNat_checkedBits, ← Register.toNat_checkedBits] at hbits
      rw [hsum, hsum', hregister, hregister', hcrc, Crc.extendAll_address hbits,
        ← Register.toNat_checkedBits, ← Register.toNat_checkedBits]
      exact ⟨rfl, hbits⟩

/-! ## Runs -/

/-- Writers with the same check sum keep it the same if their registers have the same checked bits,
or if no payload goes on before a call moves them. -/
theorem crcs_eq (hcrc : writer.crc = other.crc)
    (h : goesOn calls = false ∨ writer.register.checkedBits = other.register.checkedBits) :
    writer.crcs calls = other.crcs calls := by
  induction calls generalizing writer other with
  | nil => exact congrArg (fun crc => [crc]) hcrc
  | cons call calls ih =>
      rw [crcs_cons, crcs_cons, hcrc]
      rcases h with hgoes | hbits
      · obtain ⟨hfurther, hlater⟩ := Bool.or_eq_false_iff.1 hgoes
        cases hmoves : call.moves with
        | true =>
            obtain ⟨hsum, hregister⟩ := after_of_moves hmoves hcrc
            rw [ih hsum (.inr (congrArg Register.checkedBits hregister))]
        | false =>
            have hnone : call.further = [] := by simpa using hfurther
            have hsum : (writer.after call).crc = (other.after call).crc := by
              rw [(after_of_stays hmoves writer).2, (after_of_stays hmoves other).2, hnone, hcrc]
              rfl
            rw [ih hsum (.inl (by simpa [hmoves] using hlater))]
      · obtain ⟨hsum, hbits⟩ := after_of_checkedBits hcrc hbits call
        rw [ih hsum (.inr hbits)]

/-- Writers with the same check sum, but with registers of other checked bits, differ in their check
sums once payload goes on. -/
theorem crcs_ne (hcrc : writer.crc = other.crc)
    (hbits : writer.register.checkedBits ≠ other.register.checkedBits)
    (hfits : ∀ words, .long words ∈ calls → words.length ≤ Header.type2Limit)
    (h : goesOn calls = true) : writer.crcs calls ≠ other.crcs calls := by
  induction calls generalizing writer other with
  | nil => cases h
  | cons call calls ih =>
      have hstays : call.moves = false := by
        cases hmoves : call.moves with
        | false => rfl
        | true => simp [goesOn, Call.further_of_moves hmoves, hmoves] at h
      obtain ⟨hregister, hsum⟩ := after_of_stays hstays writer
      obtain ⟨hregister', hsum'⟩ := after_of_stays hstays other
      rw [crcs_cons, crcs_cons]
      intro hsame
      have htail := (List.cons.inj hsame).2
      by_cases hfurther : call.further = []
      · -- The call counts nothing, and payload goes on after it.
        have hnext : (writer.after call).crc = (other.after call).crc := by
          rw [hsum, hsum', hfurther, hcrc]
          rfl
        rw [← hregister, ← hregister'] at hbits
        have hlater : goesOn calls = true := by simpa [goesOn, hfurther, hstays] using h
        exact ih hnext hbits (fun words hlong => hfits words (List.mem_cons_of_mem _ hlong)) hlater
          htail
      · have hnext : (writer.after call).crc = (other.after call).crc := by
          have hhead := congrArg List.head? htail
          rw [head?_crcs, head?_crcs] at hhead
          exact Option.some.inj hhead
        have hreset : call ≠ .resetCrc := fun heq => hfurther (heq ▸ rfl)
        have hlength : call.further.length < mersenne 31 := by
          have hlimit : Header.type2Limit < mersenne 31 := by decide
          cases call with
          | long words => exact Nat.lt_of_le_of_lt (hfits words List.mem_cons_self) hlimit
          | payload value => exact Nat.lt_trans (show 1 < Header.type2Limit by decide) hlimit
          | _ => exact absurd rfl hfurther
        rw [← Register.toNat_checkedBits, ← Register.toNat_checkedBits] at hbits
        rw [hsum, hsum', if_neg hreset, if_neg hreset, hcrc] at hnext
        exact Crc.extendAll_address_ne hbits other.crc hfurther hlength hnext

/-- Where packets that do nothing can be put. If there are none, or no payload goes on after them
before a call moves the writer, or the register they are put after has no checked bits, then no
check sum changes, and what is written out does not either. These are the only such places, as long
as type 2 packets are no longer than their headers can say. -/
theorem crcs_idle (writer : Writer) (front back : List Call) (count : Nat) :
    let plain := front.foldl after writer
    let idled := (front ++ List.replicate count Call.nop).foldl after writer
    (count = 0 ∨ goesOn back = false ∨ plain.register.checkedBits = 0 →
      idled.crcs back = plain.crcs back ∧ idled.flushed back = plain.flushed back) ∧
    ((∀ words, .long words ∈ back → words.length ≤ Header.type2Limit) →
      idled.crcs back = plain.crcs back →
      count = 0 ∨ goesOn back = false ∨ plain.register.checkedBits = 0) := by
  intro plain idled
  have hidled : idled = plain.nops count := by
    rw [show idled = _ from List.foldl_append, foldl_after_nop]
  have hcrc : idled.crc = plain.crc := by rw [hidled, crc_nops]
  have hregister (hcount : count ≠ 0) : idled.register.checkedBits = 0 := by
    rw [hidled, register_nops plain hcount]
    rfl
  constructor
  · intro h
    have hsame : idled.crcs back = plain.crcs back := by
      by_cases hcount : count = 0
      · rw [hidled, hcount, nops]
      · refine crcs_eq hcrc ?_
        rw [hregister hcount]
        exact (h.resolve_left hcount).imp_right Eq.symm
    exact ⟨hsame, by rw [flushed_eq, flushed_eq, hsame]⟩
  · intro hfits hsame
    by_contra hnone
    obtain ⟨hcount, hother⟩ := not_or.1 hnone
    obtain ⟨hgoes, hbits⟩ := not_or.1 hother
    have hdiffer : idled.register.checkedBits ≠ plain.register.checkedBits := by
      rw [hregister hcount]
      exact Ne.symm hbits
    exact crcs_ne hcrc hdiffer hfits (by simpa using hgoes) hsame

/-- Between a write of frame data and a type 2 packet, packets that do nothing change the check sum
that is written out. Before a write that addresses a register they change none. -/
theorem crcs_idle_frameData :
    let front : List Call := [.register .far 0x100, .short .write .fdri [7]]
    let addressed : List Call := [.register .mask 1, .long [2, 3], .flush]
    let continued : List Call := [.long [2, 3], .flush]
    let plain := front.foldl after ({} : Writer)
    let idled := (front ++ List.replicate 3 Call.nop).foldl after ({} : Writer)
    (goesOn addressed = false ∧ idled.crcs addressed = plain.crcs addressed ∧
        idled.flushed addressed = plain.flushed addressed) ∧
      (∀ words, .long words ∈ continued → words.length ≤ Header.type2Limit) ∧
      goesOn continued = true ∧ plain.register.checkedBits = 2 ∧
      idled.crcs continued ≠ plain.crcs continued := by
  intro front addressed continued plain idled
  have haddressed : goesOn addressed = false := rfl
  have hfits : ∀ words, .long words ∈ continued → words.length ≤ Header.type2Limit := by
    intro words hlong
    obtain rfl : words = [2, 3] := by simpa [continued] using hlong
    decide
  refine ⟨⟨haddressed, (crcs_idle {} front addressed 3).1 (.inr (.inl haddressed))⟩, hfits, rfl,
    rfl, fun hsame => ?_⟩
  exact absurd ((crcs_idle {} front continued 3).2 hfits hsame) (by decide +kernel)

/-- One packet that does nothing, put between a write that addresses a register and a type 2 packet:
another check sum is written out than without it, and a decoder computes the one without it. -/
theorem crcs_idle_ne :
    let front : List Call := [.short .write .fdri []]
    let back : List Call := [.long [1, 2], .flush]
    let plain := front.foldl after ({} : Writer)
    let idled := (front ++ [Call.nop]).foldl after ({} : Writer)
    idled.crcs back ≠ plain.crcs back ∧
      plain.flushed back = [0xBE7BA4F8] ∧ idled.flushed back = [0xB22DD441] ∧
      (decode .empty (Word.toBytes syncWord ++ (back.foldl after idled).bytes.toList)).map
        Report.crcChecks = .ok [(0xB22DD441, 0xBE7BA4F8)] := by
  decide +kernel

end Writer

end ConfigStream
