import ConfigStream.Encoding
import ConfigStream.Proofs.Frame.Memory
import ConfigStream.Proofs.Stream.Framed

/-!
# The calls after the header

After the header a script is made of framed calls (`Encoding.body_framed`) and is disciplined
(`Encoding.body_disciplined`), so a decoder stays in step with the writer to the end of the stream.
It writes the check sum out once for every frame, once for every frame of zeros, and twice at the
end (`Encoding.count_flush_body`).
-/

namespace ConfigStream

namespace Encoding

open Writer

/-- The calls for all frames of a memory. -/
def frames (memory : FrameMemory) (order : FrameOrder) : List Call :=
  memory.toList.flatMap fun entry => frame order entry.1 entry.2

/-- The calls after the sync word. -/
def body (profile : Profile) (memory : FrameMemory) (order : FrameOrder) (first : UInt32) :
    List Call :=
  preamble profile first ++ frames memory order ++ epilogue profile

theorem script_eq (profile : Profile) (memory : FrameMemory) (order : FrameOrder)
    (first : UInt32) :
    script profile memory order first = header profile ++ body profile memory order first := by
  simp [script, body, frames]

/-! ## Framed calls -/

theorem frameGroup_framed (address : UInt32) (frame : Frame) :
    ∀ call ∈ frameGroup address frame, call.IsFramed := by
  simp [frameGroup, Call.IsFramed, Register.far, Register.fdri, Register.crc]

theorem preamble_framed (profile : Profile) (first : UInt32) :
    ∀ call ∈ preamble profile first, call.IsFramed := by
  simp [preamble, Call.IsFramed, Register.far, Register.fdri, Register.crc, Register.timer,
    Register.wbstar, unnamedRegister, Register.cor0, Register.cor1, Register.idcode, Register.mask,
    Register.ctl0, Register.ctl1]

/-- The last call of the preamble moves to the first frame. -/
theorem hearAll_preamble (profile : Profile) (first : UInt32) (decodeOrder : FrameOrder) :
    ∃ register crc, (Boundary.atSync.hearAll decodeOrder (preamble profile first)).1 =
      ⟨register, crc, .start first⟩ :=
  Boundary.hearAll_start (preamble_framed profile first) decodeOrder .crc 0 0

theorem epilogue_framed (profile : Profile) : ∀ call ∈ epilogue profile, call.IsFramed := by
  simp [epilogue, Call.IsFramed, Register.far, Register.fdri, Register.crc, Register.mask,
    Register.ctl0, Register.ctl1]

/-- The calls that lead to the next row. -/
theorem nextRow_framed (next : UInt32) :
    ∀ call ∈ ([.command .wcfg, .nop, .register .far next] : List Call), call.IsFramed := by
  simp [Call.IsFramed, Register.far, Register.fdri, Register.crc]

theorem rowEnd_framed (order : FrameOrder) (address : UInt32) :
    ∀ call ∈ rowEnd order address, call.IsFramed := by
  intro call hcall
  rcases List.mem_append.1 hcall with hcall | hcall
  · exact frameGroup_framed address .empty call hcall
  · cases hnext : order.next? address with
    | none => simp [hnext] at hcall
    | some next =>
        simp only [hnext] at hcall
        exact nextRow_framed next call hcall

theorem frame_framed (order : FrameOrder) (address : UInt32) (contents : Frame) :
    ∀ call ∈ frame order address contents, call.IsFramed := by
  intro call hcall
  rcases List.mem_append.1 hcall with hcall | hcall
  · exact frameGroup_framed address _ call hcall
  · split at hcall
    · exact rowEnd_framed order address call hcall
    · cases hcall

theorem frames_framed (memory : FrameMemory) (order : FrameOrder) :
    ∀ call ∈ frames memory order, call.IsFramed := by
  intro call hcall
  obtain ⟨entry, _, hcall⟩ := List.mem_flatMap.1 hcall
  exact frame_framed order entry.1 entry.2 call hcall

/-- All calls after the header are framed. -/
theorem body_framed (profile : Profile) (memory : FrameMemory) (order : FrameOrder)
    (first : UInt32) : ∀ call ∈ body profile memory order first, call.IsFramed := by
  intro call hcall
  rcases List.mem_append.1 hcall with hcall | hcall
  · rcases List.mem_append.1 hcall with hcall | hcall
    · exact preamble_framed profile first call hcall
    · exact frames_framed memory order call hcall
  · exact epilogue_framed profile call hcall

/-! ## Calls without frame data -/

theorem preamble_plain (profile : Profile) (first : UInt32) :
    ∀ call ∈ preamble profile first, call.isData = false := by
  simp [preamble, Call.isData]

theorem nextRow_plain (next : UInt32) :
    ∀ call ∈ ([.command .wcfg, .nop, .register .far next] : List Call), call.isData = false := by
  simp [Call.isData]

theorem epilogue_plain (profile : Profile) : ∀ call ∈ epilogue profile, call.isData = false := by
  simp [epilogue, Call.isData]

/-! ## Discipline -/

/-- A framed call is whole unless it is no packet, and it is no type 2 packet. -/
theorem isWhole_of_framed {call : Call} (h : call.IsFramed) (hpacket : call ≠ .resetCrc) :
    call.IsWhole ∧ call.isLong = false := by
  cases call with
  | short opcode target words =>
      obtain ⟨rfl, rfl, hwords⟩ := h
      refine ⟨⟨rfl, by decide, by decide, ?_⟩, rfl⟩
      rw [hwords]
      decide
  | register target value => exact ⟨h.2, rfl⟩
  | nop | nops | command | flush => exact ⟨trivial, rfl⟩
  | resetCrc => exact absurd rfl hpacket
  | raw | field | word | payload | long => cases h

/-- Framed packets of which none resets the check sum are disciplined from any start. -/
theorem disciplined_of_framed {calls : List Call} (h : ∀ call ∈ calls, call.IsFramed)
    (hkeeps : ∀ call ∈ calls, call ≠ .resetCrc ∧ ¬ call.Resets) (addressed : Bool) :
    Disciplined addressed calls := by
  refine .of_forall (fun call hcall => ?_) addressed
  obtain ⟨hwhole, hlong⟩ := isWhole_of_framed (h call hcall) (hkeeps call hcall).1
  exact ⟨hwhole, hlong, (hkeeps call hcall).2⟩

theorem frameGroup_keeps (address : UInt32) (frame : Frame) :
    ∀ call ∈ frameGroup address frame, call ≠ .resetCrc ∧ ¬ call.Resets := by
  simp [frameGroup, Call.Resets]

theorem frame_keeps (order : FrameOrder) (address : UInt32) (contents : Frame) :
    ∀ call ∈ frame order address contents, call ≠ .resetCrc ∧ ¬ call.Resets := by
  have hrow : ∀ call ∈ rowEnd order address, call ≠ .resetCrc ∧ ¬ call.Resets := by
    intro call hcall
    rcases List.mem_append.1 hcall with hcall | hcall
    · exact frameGroup_keeps address .empty call hcall
    · cases hnext : order.next? address with
      | none => simp [hnext] at hcall
      | some next =>
          simp only [hnext, List.mem_cons, List.mem_nil_iff, or_false] at hcall
          rcases hcall with rfl | rfl | rfl <;> simp [Call.Resets, Command.wcfg, Command.rcrc]
  intro call hcall
  rcases List.mem_append.1 hcall with hcall | hcall
  · exact frameGroup_keeps address _ call hcall
  · split at hcall
    · exact hrow call hcall
    · cases hcall

theorem preamble_disciplined (profile : Profile) (first : UInt32) (addressed : Bool) :
    Disciplined addressed (preamble profile first) := by
  -- The one reset of the preamble splits it into two parts without.
  have hsplit : preamble profile first =
      (preamble profile first).take 5 ++
        .command .rcrc :: .resetCrc :: (preamble profile first).drop 7 := rfl
  have hframed := preamble_framed profile first
  rw [hsplit]
  apply Disciplined.append
  · refine disciplined_of_framed (fun call hcall => hframed call (List.mem_of_mem_take hcall)) ?_ _
    simp [preamble, Call.Resets, Command.null, Command.rcrc]
  · intro later
    refine .reset trivial rfl
      (disciplined_of_framed (fun call hcall => hframed call (List.mem_of_mem_drop hcall)) ?_ _)
    simp [preamble, Call.Resets, Command.switch, Command.wcfg, Command.rcrc, Register.cor0,
      Register.cor1, Register.idcode, Register.mask, Register.ctl0, Register.ctl1, Register.far,
      Register.cmd]

/-- After the header, the check sum of the writer is reset where that of a decoder is. -/
theorem body_disciplined (profile : Profile) (memory : FrameMemory) (order : FrameOrder)
    (first : UInt32) (addressed : Bool) :
    Disciplined addressed (body profile memory order first) := by
  refine ((preamble_disciplined profile first addressed).append fun _ => ?_).append fun _ => ?_
  · refine disciplined_of_framed (frames_framed memory order) (fun call hcall => ?_) _
    obtain ⟨entry, _, hcall⟩ := List.mem_flatMap.1 hcall
    exact frame_keeps order entry.1 entry.2 call hcall
  · refine disciplined_of_framed (epilogue_framed profile) ?_ _
    simp [epilogue, Call.Resets, Command.null, Command.rcrc, Command.grestore, Command.dghigh,
      Command.start, Command.desync, Register.cmd, Register.mask, Register.ctl1, Register.ctl0,
      Register.far]

/-! ## Check sums -/

theorem count_flush_frame (order : FrameOrder) (address : UInt32) (contents : Frame) :
    (frame order address contents).count .flush = if order.isRowEnd address then 2 else 1 := by
  have hgroup (frame : Frame) : (frameGroup address frame).count .flush = 1 := by
    simp [frameGroup]
  have hrow : (rowEnd order address).count .flush = 1 := by
    rw [rowEnd, List.count_append, hgroup]
    cases order.next? address <;> simp
  rw [frame, List.count_append, hgroup]
  split
  · rw [hrow]
  · rfl

theorem count_flush_frames (entries : List (UInt32 × Frame)) (order : FrameOrder) :
    (entries.flatMap fun entry => frame order entry.1 entry.2).count .flush =
      entries.length + (entries.map Prod.fst).countP order.isRowEnd := by
  induction entries with
  | nil => rfl
  | cons entry entries ih =>
      rw [List.flatMap_cons, List.count_append, ih, count_flush_frame, List.map_cons,
        List.countP_cons, List.length_cons]
      split <;> omega

/-- The check sum is written out once a frame, once a frame of zeros, and twice at the end. -/
theorem count_flush_body (profile : Profile) (memory : FrameMemory) (order : FrameOrder)
    (first : UInt32) :
    (body profile memory order first).count .flush =
      memory.size + memory.addresses.countP order.isRowEnd + 2 := by
  have hpreamble : (preamble profile first).count .flush = 0 := by
    simp [preamble]
  have hepilogue : (epilogue profile).count .flush = 2 := by
    simp [epilogue]
  rw [body, List.count_append, List.count_append, hpreamble, hepilogue, frames,
    count_flush_frames, memory.map_fst_toList, memory.length_toList, Nat.zero_add]

end Encoding

end ConfigStream
