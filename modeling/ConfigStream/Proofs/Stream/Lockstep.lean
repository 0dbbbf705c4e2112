import ConfigStream.Proofs.Decoder.Packets
import ConfigStream.Stream.Writer

/-!
# Writer and decoder in step

A decoder keeps the check sum and the register of a stream by rules of its own. While a writer is
asked for whole packets, and its check sum is started anew exactly where a reset command tells a
decoder to do the same, the two agree after every call. `InStep` is what they agree on,
`Disciplined` are the lists of calls that keep it, and `InStep.run` says that such a list succeeds
and that a decoder hears exactly the packets of its calls.
-/

namespace ConfigStream

namespace Writer.Call

/-- The packets that a call writes when the check sum is the given one. -/
def packets (crc : UInt32) : Call → List Packet
  | .short _ target words => [.write target words]
  | .long words => [.long .read words]
  | .nop => [.nop]
  | .nops count => List.replicate count .nop
  | .register target value => [.write target [value]]
  | .command issued => [.write .cmd [issued.raw]]
  | .flush => [.write .crc [crc]]
  | .raw _ | .field .. | .word _ | .payload _ | .resetCrc => []

/-- A call for whole packets that fit their headers. The check sum register is written by `flush`
alone. -/
def IsWhole : Call → Prop
  | .short opcode target words =>
      opcode = .write ∧ target ≠ .crc ∧ target.raw.toNat < 2 ^ 14 ∧
        words.length ≤ Header.type1Limit
  | .long words => words.length ≤ Header.type2Limit
  | .register target _ => target ≠ .crc ∧ target.raw.toNat < 2 ^ 14
  | .nop | .nops _ | .command _ | .flush => True
  | .raw _ | .field .. | .word _ | .payload _ | .resetCrc => False

instance (call : Call) : Decidable call.IsWhole :=
  match call with
  | .short .. => inferInstanceAs (Decidable (_ ∧ _ ∧ _ ∧ _))
  | .register .. => inferInstanceAs (Decidable (_ ∧ _))
  | .long words => inferInstanceAs (Decidable (words.length ≤ _))
  | .nop | .nops _ | .command _ | .flush => .isTrue trivial
  | .raw _ | .field .. | .word _ | .payload _ | .resetCrc => .isFalse id

/-- A call that writes the check sum reset command last. -/
def Resets : Call → Prop
  | .short _ target words => target = .cmd ∧ words.getLast? = some Command.rcrc.raw
  | .register target value => target = .cmd ∧ value = Command.rcrc.raw
  | .command issued => issued.raw = Command.rcrc.raw
  | _ => False

instance (call : Call) : Decidable call.Resets :=
  match call with
  | .short .. | .register .. => inferInstanceAs (Decidable (_ ∧ _))
  | .command issued => inferInstanceAs (Decidable (issued.raw = _))
  | .long _ | .nop | .nops _ | .flush | .raw _ | .field .. | .word _ | .payload _ | .resetCrc =>
    .isFalse id

/-- Whether a call continues the packet before it. -/
def isLong : Call → Bool
  | .long _ => true
  | _ => false

/-- Whether a call addresses a register, and is not refused. -/
def isAddressing : Call → Bool
  | .short _ _ words => words.length ≤ Header.type1Limit
  | .register .. | .command _ | .flush => true
  | .raw _ | .field .. | .word _ | .payload _ | .long _ | .nop | .nops _ | .resetCrc => false

/-- Whether the writer counts payload for the register that a decoder counts it for, after a call:
a packet that does nothing moves the writer to the check sum register and leaves a decoder where it
was. -/
def addresses (addressed : Bool) : Call → Bool
  | .nop => false
  | .nops count => addressed && count == 0
  | .long _ => addressed
  | _ => true

/-- The packets of a whole call fit. -/
theorem IsWhole.fits {call : Call} (h : call.IsWhole) (crc : UInt32) :
    ∀ packet ∈ call.packets crc, packet.Fits := by
  have hnop : Packet.nop.Fits := ⟨by decide, by decide, by decide⟩
  have hsingle (target : Register) (value : UInt32) (htarget : target.raw.toNat < 2 ^ 14) :
      (Packet.write target [value]).Fits :=
    ⟨htarget, show 1 ≤ Header.type1Limit by decide⟩
  intro packet hpacket
  cases call with
  | short opcode target words =>
      obtain rfl := List.mem_singleton.1 hpacket
      exact ⟨h.2.2.1, h.2.2.2⟩
  | long words =>
      obtain rfl := List.mem_singleton.1 hpacket
      exact h
  | nop =>
      obtain rfl := List.mem_singleton.1 hpacket
      exact hnop
  | nops count =>
      obtain rfl := List.eq_of_mem_replicate hpacket
      exact hnop
  | register target value =>
      obtain rfl := List.mem_singleton.1 hpacket
      exact hsingle target value h.2
  | command issued =>
      obtain rfl := List.mem_singleton.1 hpacket
      exact hsingle .cmd issued.raw (by decide)
  | flush =>
      obtain rfl := List.mem_singleton.1 hpacket
      exact hsingle .crc crc (by decide)
  | raw | field | word | payload | resetCrc => cases h

end Writer.Call

/-! ## What a writer writes -/

namespace Writer

/-- The writer after a call. One that fails leaves it as it was. -/
def after (writer : Writer) (call : Call) : Writer :=
  match writer.perform call with
  | .ok next => next
  | .error _ => writer

theorem after_eq {writer next : Writer} {call : Call} (h : writer.perform call = .ok next) :
    writer.after call = next := by
  rw [after, h]

/-- A packet that does nothing is four bytes. -/
theorem bytes_nop (writer : Writer) :
    writer.nop.bytes.toList = writer.bytes.toList ++ Packet.nop.bytes := by
  simp [nop, address, word, raw, Packet.bytes, Packet.nop, Packet.header, Packet.payload,
    Header.nop]

theorem nops_eq (writer : Writer) (count : Nat) :
    (writer.nops count).bytes.toList =
        writer.bytes.toList ++ (List.replicate count Packet.nop).flatMap Packet.bytes ∧
      (writer.nops count).crc = writer.crc := by
  induction count generalizing writer with
  | zero => simp [nops]
  | succ count ih =>
      obtain ⟨hbytes, hcrc⟩ := ih writer.nop
      rw [nops, hbytes, hcrc, bytes_nop, List.replicate_succ, List.flatMap_cons, List.append_assoc]
      exact ⟨rfl, rfl⟩

/-- A write of one word is a packet of one word. -/
theorem bytes_writeTo (writer : Writer) (register : Register) (value : UInt32) :
    (writer.writeTo register value).bytes.toList =
      writer.bytes.toList ++ (Packet.write register [value]).bytes := by
  simp [writeTo, payloadWord, address, word, raw, Packet.bytes, Packet.header, Packet.payload]

/-- A whole call succeeds and writes its packets. -/
theorem perform_whole {call : Call} (h : call.IsWhole) (writer : Writer) :
    ∃ next, writer.perform call = .ok next ∧
      next.bytes.toList =
        writer.bytes.toList ++ (call.packets writer.crc).flatMap Packet.bytes := by
  cases call with
  | short opcode target words =>
      obtain ⟨rfl, _, _, hwords⟩ := h
      refine ⟨_, if_pos hwords, ?_⟩
      rw [bytes_payload]
      simp [address, word, raw, Call.packets, Packet.bytes, Packet.header, Packet.payload,
        Header.write]
  | long words =>
      refine ⟨_, rfl, ?_⟩
      rw [long, bytes_payload]
      simp [word, raw, Call.packets, Packet.bytes, Packet.header, Packet.payload, Header.long]
  | nop => exact ⟨_, rfl, by simp [bytes_nop, Call.packets]⟩
  | nops count => exact ⟨_, rfl, (nops_eq writer count).1⟩
  | register target value => exact ⟨_, rfl, by simp [bytes_writeTo, Call.packets]⟩
  | command issued => exact ⟨_, rfl, by simp [command, bytes_writeTo, Call.packets]⟩
  | flush => exact ⟨_, rfl, by simp [flush, resetCrc, bytes_writeTo, Call.packets]⟩
  | raw | field | word | payload | resetCrc => cases h

/-- Payload leaves the register addressed last. -/
theorem register_payload (writer : Writer) (words : List UInt32) :
    (writer.payload words).register = writer.register := by
  induction words generalizing writer with
  | nil => rfl
  | cons word words ih => exact ih (writer.payloadWord word)

end Writer

/-! ## What a decoder hears -/

namespace Boundary

variable {order : FrameOrder}

/-- What the packets of a call do to a boundary, and what they tell, when the check sum of the
writer is the one of the boundary. -/
def hear (order : FrameOrder) (boundary : Boundary) (call : Writer.Call) : Boundary × List Event :=
  boundary.takeAll order (call.packets boundary.crc)

/-- What the packets of a list of calls do to a boundary, and what they tell. -/
def hearAll (order : FrameOrder) (boundary : Boundary) :
    List Writer.Call → Boundary × List Event
  | [] => (boundary, [])
  | call :: calls =>
    let (next, events) := boundary.hear order call
    let (last, more) := next.hearAll order calls
    (last, events ++ more)

/-- Calls are heard one list after another. -/
theorem hearAll_append (boundary : Boundary) (first second : List Writer.Call) :
    boundary.hearAll order (first ++ second) =
      (((boundary.hearAll order first).1.hearAll order second).1,
        (boundary.hearAll order first).2 ++
          ((boundary.hearAll order first).1.hearAll order second).2) := by
  induction first generalizing boundary with
  | nil => rfl
  | cons call calls ih =>
      simp only [List.cons_append, hearAll]
      rw [ih, List.append_assoc]

/-- Packets are taken one list after another. -/
theorem takeAll_append (boundary : Boundary) (first second : List Packet) :
    boundary.takeAll order (first ++ second) =
      (((boundary.takeAll order first).1.takeAll order second).1,
        (boundary.takeAll order first).2 ++
          ((boundary.takeAll order first).1.takeAll order second).2) := by
  induction first generalizing boundary with
  | nil => rfl
  | cons packet packets ih =>
      simp only [List.cons_append, takeAll]
      rw [ih, List.append_assoc]

/-- The packets of a list of calls, when the check sum of the writer is the one of the boundary. -/
def packets (order : FrameOrder) (boundary : Boundary) : List Writer.Call → List Packet
  | [] => []
  | call :: calls => call.packets boundary.crc ++ (boundary.hear order call).1.packets order calls

theorem packets_append (boundary : Boundary) (first second : List Writer.Call) :
    boundary.packets order (first ++ second) =
      boundary.packets order first ++ (boundary.hearAll order first).1.packets order second := by
  induction first generalizing boundary with
  | nil => rfl
  | cons call calls ih =>
      simp only [List.cons_append, packets, hearAll]
      rw [ih, List.append_assoc]

/-- The packets of a list of calls are packets of its calls. -/
theorem mem_packets {boundary : Boundary} {calls : List Writer.Call} {packet : Packet}
    (h : packet ∈ boundary.packets order calls) :
    ∃ call ∈ calls, ∃ crc, packet ∈ call.packets crc := by
  induction calls generalizing boundary with
  | nil => cases h
  | cons call calls ih =>
      rcases List.mem_append.1 h with h | h
      · exact ⟨call, List.mem_cons_self, boundary.crc, h⟩
      · obtain ⟨other, hother, hpacket⟩ := ih h
        exact ⟨other, List.mem_cons_of_mem _ hother, hpacket⟩

/-- What is heard of calls is what their packets tell. -/
theorem takeAll_packets (boundary : Boundary) (calls : List Writer.Call) :
    boundary.takeAll order (boundary.packets order calls) = boundary.hearAll order calls := by
  induction calls generalizing boundary with
  | nil => rfl
  | cons call calls ih =>
      rw [packets, takeAll_append, hearAll]
      exact congrArg (fun later => (later.1, _ ++ later.2)) (ih (boundary.hear order call).1)

/-- Packets that do nothing leave the boundary. -/
theorem takeAll_replicate_nop (boundary : Boundary) (count : Nat) :
    boundary.takeAll order (List.replicate count .nop) =
      (boundary, List.replicate count (.diagnostic .nop)) := by
  induction count with
  | zero => rfl
  | succ count ih =>
      rw [List.replicate_succ, takeAll]
      show ((boundary.takeAll order (List.replicate count .nop)).1,
        .diagnostic .nop :: (boundary.takeAll order (List.replicate count .nop)).2) = _
      rw [ih, List.replicate_succ]

end Boundary

/-! ## Staying in step -/

/-- A writer and a decoder agree on the check sum, and on the register that payload is counted for
if a packet has addressed one on both sides. -/
structure InStep (writer : Writer) (addressed : Bool) (boundary : Boundary) : Prop where
  crc_eq : boundary.crc = writer.crc
  register_eq : addressed = true → boundary.register = writer.register

namespace InStep

variable {order : FrameOrder} {writer next : Writer} {addressed : Bool} {boundary : Boundary}
  {call : Writer.Call}

/-- A write to a register keeps both in step, unless it resets the check sum. -/
theorem write (h : InStep writer addressed boundary) {target : Register} {words : List UInt32}
    (header : UInt32) (htarget : target ≠ .crc)
    (hreset : ¬ (target = .cmd ∧ words.getLast? = some Command.rcrc.raw)) :
    InStep (((writer.address target).word header).payload words) true
      (boundary.takeAll order [.write target words]).1 := by
  have hregister := Writer.register_payload ((writer.address target).word header) words
  refine ⟨?_, fun _ => hregister.symm⟩
  have hcrc : (boundary.takeAll order [.write target words]).1.crc = _ :=
    Boundary.crc_settled_write ⟨target, boundary.crc, boundary.cursor⟩ words
  have hneither : ¬ (target = .crc ∨ target = .cmd ∧ words.getLast? = some Command.rcrc.raw) :=
    fun heither => heither.elim htarget hreset
  rw [if_neg hneither, h.crc_eq] at hcrc
  rw [Writer.crc_payload]
  exact hcrc

/-- A write that resets the check sum keeps both in step once the writer resets it too. -/
theorem write_reset {target : Register} {words : List UInt32} (header : UInt32)
    (hreset : target = .cmd ∧ words.getLast? = some Command.rcrc.raw) :
    InStep (((writer.address target).word header).payload words).resetCrc true
      (boundary.takeAll order [.write target words]).1 := by
  have hregister := Writer.register_payload ((writer.address target).word header) words
  refine ⟨?_, fun _ => hregister.symm⟩
  have hcrc : (boundary.takeAll order [.write target words]).1.crc = _ :=
    Boundary.crc_settled_write ⟨target, boundary.crc, boundary.cursor⟩ words
  rwa [if_pos (.inr hreset)] at hcrc

/-- A whole call keeps both in step, unless it resets the check sum. -/
theorem perform (h : InStep writer addressed boundary) (hwhole : call.IsWhole)
    (hlong : call.isLong = true → addressed = true) (hreset : ¬ call.Resets)
    (hnext : writer.perform call = .ok next) :
    InStep next (call.addresses addressed) (boundary.hear order call).1 := by
  cases call with
  | short opcode target words =>
      obtain ⟨rfl, htarget, _, hwords⟩ := hwhole
      obtain rfl : _ = next := Except.ok.inj ((if_pos hwords).symm.trans hnext)
      exact h.write _ htarget hreset
  | long words =>
      obtain rfl : _ = next := Except.ok.inj hnext
      -- Both count the payload for the register that they agree on.
      have hregister := h.register_eq (hlong rfl)
      have hlast : (writer.long words).register = writer.register :=
        Writer.register_payload (writer.word _) words
      refine ⟨?_, fun _ => hregister.trans hlast.symm⟩
      have hpaid : (boundary.hear order (.long words)).1.crc =
          Crc.extendAll boundary.crc
            (words.map fun word => (boundary.register.raw.toUInt32, word)) :=
        if_neg (by simp)
      rw [hpaid, Writer.long, Writer.crc_payload, hregister, h.crc_eq]
      rfl
  | nop =>
      obtain rfl : _ = next := Except.ok.inj hnext
      -- The writer has moved to another register, of which nothing is claimed.
      exact ⟨h.crc_eq, fun hfalse => absurd hfalse Bool.false_ne_true⟩
  | nops count =>
      obtain rfl : _ = next := Except.ok.inj hnext
      rw [Boundary.hear, Writer.Call.packets, Boundary.takeAll_replicate_nop]
      refine ⟨h.crc_eq.trans (Writer.nops_eq writer count).2.symm, fun hboth => ?_⟩
      obtain ⟨haddressed, hcount⟩ := Bool.and_eq_true_iff.1 hboth
      obtain rfl : count = 0 := eq_of_beq hcount
      exact h.register_eq haddressed
  | register target value =>
      obtain rfl : _ = next := Except.ok.inj hnext
      have hkeeps : ¬ (target = .cmd ∧ [value].getLast? = some Command.rcrc.raw) :=
        fun hboth => hreset ⟨hboth.1, Option.some.inj hboth.2⟩
      exact h.write (Header.write target 1).encode hwhole.1 hkeeps
  | command issued =>
      obtain rfl : _ = next := Except.ok.inj hnext
      have hkeeps : ¬ (Register.cmd = .cmd ∧ [issued.raw].getLast? = some Command.rcrc.raw) :=
        fun hboth => hreset (Option.some.inj hboth.2)
      exact h.write (Header.write .cmd 1).encode (by simp) hkeeps
  | flush =>
      obtain rfl : _ = next := Except.ok.inj hnext
      exact ⟨rfl, fun _ => rfl⟩
  | raw | field | word | payload | resetCrc => cases hwhole

/-- A whole call that resets the check sum keeps both in step if the writer is then reset too. -/
theorem perform_reset (hwhole : call.IsWhole) (hreset : call.Resets)
    (hnext : writer.perform call = .ok next) :
    InStep next.resetCrc true (boundary.hear order call).1 := by
  cases call with
  | short opcode target words =>
      obtain ⟨rfl, _, _, hwords⟩ := hwhole
      obtain rfl : _ = next := Except.ok.inj ((if_pos hwords).symm.trans hnext)
      exact write_reset _ hreset
  | register target value =>
      obtain rfl : _ = next := Except.ok.inj hnext
      have hlast : target = .cmd ∧ [value].getLast? = some Command.rcrc.raw :=
        ⟨hreset.1, congrArg some hreset.2⟩
      exact write_reset (Header.write target 1).encode hlast
  | command issued =>
      obtain rfl : _ = next := Except.ok.inj hnext
      have hlast : Register.cmd = .cmd ∧ [issued.raw].getLast? = some Command.rcrc.raw :=
        ⟨rfl, congrArg some hreset⟩
      exact write_reset (Header.write .cmd 1).encode hlast
  | long | nop | nops | flush => cases hreset
  | raw | field | word | payload | resetCrc => cases hwhole

end InStep

/-! ## Whole runs -/

/-- Lists of whole calls in which the writer resets its check sum right after each write that resets
the one of a decoder, and nowhere else. The flag says whether both count payload for the same
register at the start; a type 2 packet needs that. -/
inductive Disciplined : Bool → List Writer.Call → Prop where
  | nil (addressed : Bool) : Disciplined addressed []
  | call {addressed : Bool} {call : Writer.Call} {calls : List Writer.Call}
      (whole : call.IsWhole) (long : call.isLong = true → addressed = true)
      (keeps : ¬ call.Resets) (rest : Disciplined (call.addresses addressed) calls) :
      Disciplined addressed (call :: calls)
  | reset {addressed : Bool} {call : Writer.Call} {calls : List Writer.Call}
      (whole : call.IsWhole) (resets : call.Resets) (rest : Disciplined true calls) :
      Disciplined addressed (call :: .resetCrc :: calls)

namespace Disciplined

/-- Calls that follow a disciplined list have to be disciplined from any start. -/
theorem append {addressed : Bool} {first second : List Writer.Call}
    (hfirst : Disciplined addressed first) (hsecond : ∀ later, Disciplined later second) :
    Disciplined addressed (first ++ second) := by
  induction hfirst with
  | nil addressed => exact hsecond addressed
  | call hwhole hlong hkeeps _ ih => exact .call hwhole hlong hkeeps ih
  | reset hwhole hresets _ ih => exact .reset hwhole hresets ih

/-- Calls other than type 2 packets and resets are disciplined from any start. -/
theorem of_forall {calls : List Writer.Call}
    (h : ∀ call ∈ calls, call.IsWhole ∧ call.isLong = false ∧ ¬ call.Resets) (addressed : Bool) :
    Disciplined addressed calls := by
  induction calls generalizing addressed with
  | nil => exact .nil addressed
  | cons call calls ih =>
      obtain ⟨hwhole, hlong, hkeeps⟩ := h call List.mem_cons_self
      refine .call hwhole (fun htrue => ?_) hkeeps
        (ih (fun other hother => h other (List.mem_cons_of_mem _ hother)) _)
      rw [hlong] at htrue
      cases htrue

end Disciplined

/-- Calls succeed, whatever the writer has written, and a decoder reads what they write as their
packets and has the writer's check sum after them. -/
def Heard (order : FrameOrder) (writer : Writer) (boundary : Boundary)
    (calls : List Writer.Call) : Prop :=
  ∃ last bytes, writer.run calls = .ok last ∧
    last.bytes.toList = writer.bytes.toList ++ bytes ∧
    (boundary.hearAll order calls).1.crc = last.crc ∧
    ∀ position, Decoder.Reads order (boundary.decoder position) bytes
      (boundary.hearAll order calls).2
      ((boundary.hearAll order calls).1.decoder (position + bytes.length))

namespace Heard

variable {order : FrameOrder} {writer next : Writer} {boundary : Boundary} {call : Writer.Call}
  {calls : List Writer.Call}

/-- A whole call is heard before what follows it. -/
theorem cons (hwhole : call.IsWhole) (hcrc : boundary.crc = writer.crc)
    (hnext : writer.perform call = .ok next)
    (h : Heard order next (boundary.hear order call).1 calls) :
    Heard order writer boundary (call :: calls) := by
  obtain ⟨other, hother, hbytes⟩ := Writer.perform_whole hwhole writer
  obtain rfl : other = next := Except.ok.inj (hother.symm.trans hnext)
  obtain ⟨last, bytes, hrun, hlast, hend, hreads⟩ := h
  refine ⟨last, (call.packets writer.crc).flatMap Packet.bytes ++ bytes, ?_, ?_, hend, ?_⟩
  · rw [Writer.run, hnext]
    exact hrun
  · rw [hlast, hbytes, List.append_assoc]
  · intro position
    rw [← hcrc, List.length_append, ← Nat.add_assoc]
    exact (Decoder.Reads.packets (hwhole.fits _) boundary position).trans (hreads _)

/-- A reset of the writer's check sum writes nothing. -/
theorem resetCrc (h : Heard order writer.resetCrc boundary calls) :
    Heard order writer boundary (.resetCrc :: calls) := by
  obtain ⟨last, bytes, hrun, hlast, hend, hreads⟩ := h
  exact ⟨last, bytes, hrun, hlast, hend, hreads⟩

end Heard

/-- A disciplined list of calls succeeds and writes its packets, and leaves the writer in step. -/
theorem InStep.writes {writer : Writer} {addressed : Bool} {boundary : Boundary}
    {calls : List Writer.Call} (h : InStep writer addressed boundary)
    (hcalls : Disciplined addressed calls) (order : FrameOrder) :
    ∃ last, writer.run calls = .ok last ∧
      last.bytes.toList =
        writer.bytes.toList ++ (boundary.packets order calls).flatMap Packet.bytes ∧
      (boundary.hearAll order calls).1.crc = last.crc ∧
      ∀ packet ∈ boundary.packets order calls, packet.Fits := by
  -- Each call leaves writer and decoder in step for the calls that are left.
  induction hcalls generalizing writer boundary with
  | nil addressed =>
      exact ⟨writer, rfl, (List.append_nil _).symm, h.crc_eq,
        fun _ hpacket => absurd hpacket List.not_mem_nil⟩
  | @call addressed call calls hwhole hlong hkeeps _ ih =>
      obtain ⟨next, hnext, hbytes⟩ := Writer.perform_whole hwhole writer
      obtain ⟨last, hlast, hwritten, hcrc, hfits⟩ := ih (h.perform hwhole hlong hkeeps hnext)
      refine ⟨last, ?_, ?_, hcrc, ?_⟩
      · rw [Writer.run, hnext]
        exact hlast
      · rw [hwritten, hbytes, Boundary.packets, List.flatMap_append, h.crc_eq, List.append_assoc]
      · exact List.forall_mem_append.2 ⟨hwhole.fits boundary.crc, hfits⟩
  | @reset addressed call calls hwhole hresets _ ih =>
      obtain ⟨next, hnext, hbytes⟩ := Writer.perform_whole hwhole writer
      obtain ⟨last, hlast, hwritten, hcrc, hfits⟩ := ih (.perform_reset hwhole hresets hnext)
      refine ⟨last, ?_, ?_, hcrc, ?_⟩
      · rw [Writer.run, hnext]
        exact hlast
      · have hnext : next.resetCrc.bytes = next.bytes := rfl
        rw [hwritten, hnext, hbytes, Boundary.packets, Boundary.packets, List.flatMap_append,
          h.crc_eq, List.append_assoc]
        rfl
      · exact List.forall_mem_append.2 ⟨hwhole.fits boundary.crc, hfits⟩

/-- A disciplined list of calls is heard by a decoder in step with the writer. -/
theorem InStep.run {writer : Writer} {addressed : Bool} {boundary : Boundary}
    {calls : List Writer.Call} (h : InStep writer addressed boundary)
    (hcalls : Disciplined addressed calls) (order : FrameOrder) :
    Heard order writer boundary calls := by
  obtain ⟨last, hlast, hbytes, hcrc, hfits⟩ := h.writes hcalls order
  refine ⟨last, _, hlast, hbytes, hcrc, fun position => ?_⟩
  rw [← Boundary.takeAll_packets]
  exact Decoder.Reads.packets hfits boundary position

end ConfigStream
