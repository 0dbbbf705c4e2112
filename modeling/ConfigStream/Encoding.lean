import ConfigStream.Frame.Order
import ConfigStream.Frame.Memory
import ConfigStream.Profile.Basic
import ConfigStream.Stream.Writer

/-!
# Encoding a frame memory

A stream is a script of writer calls: the header strings and the sync word, the commands that
prepare the device, a group of packets for every frame in address order, and the commands that start
the device. Each frame is followed by its address and a check sum; where a row ends, a frame of
zeros is written as well, and the address of the next frame.
-/

namespace ConfigStream.Encoding

open Writer

/-- The bytes every stream begins with. -/
def magic : List UInt8 :=
  [0x00, 0x09, 0x0F, 0xF0, 0x0F, 0xF0, 0x0F, 0xF0, 0x0F, 0xF0, 0x00, 0x00, 0x01]

/-- The pattern by which a device finds its bus width. -/
def busWidthPattern : List UInt8 := [0x00, 0x00, 0x00, 0xBB, 0x11, 0x22, 0x00, 0x44]

/-- A register without a public name that is cleared before the frames. -/
def unnamedRegister : Register := ⟨0x13⟩

/-- The value and the mask of control register 0. -/
def ctl0Value : UInt32 := 0x00000101

/-- The mask of control register 1. -/
def ctl1Mask : UInt32 := 0x00200000

/-- The header strings, the padding before the packets and the sync word. -/
def header (profile : Profile) : List Call := [
  .raw magic,
  .field 0x61 profile.design,
  .field 0x62 profile.part,
  .field 0x63 profile.date,
  .field 0x64 profile.time,
  .raw [0x65],
  .word profile.declaredLength,
  .raw (List.replicate 64 0xFF),
  .raw busWidthPattern,
  .raw (List.replicate 8 0xFF),
  .word syncWord]

/-- The commands before the frames, of which the first has the given address. -/
def preamble (profile : Profile) (first : UInt32) : List Call := [
  .nops 2,
  .register .timer 0,
  .register .wbstar 0,
  .command .null,
  .nop,
  .command .rcrc,
  .resetCrc,
  .nops 2,
  .register .far 0,
  .register unnamedRegister 0,
  .register .cor0 profile.cor0,
  .register .cor1 profile.cor1,
  .register .idcode profile.idcode,
  .command .switch,
  .nop,
  .register .mask 0x00000001,
  .register .ctl0 ctl0Value,
  .register .mask ctl1Mask,
  .register .ctl1 ctl1Mask,
  .nops 8,
  .command .wcfg,
  .nop,
  .register .far first]

/-- The data of a frame, its address, and the check sum. -/
def frameGroup (address : UInt32) (frame : Frame) : List Call :=
  [.short .write .fdri frame.words.toList, .register .far address, .flush]

/-- What follows the last frame of a row: a frame of zeros, and the address of the next row. -/
def rowEnd (order : FrameOrder) (address : UInt32) : List Call :=
  frameGroup address .empty ++
  match order.next? address with
  | some next => [.command .wcfg, .nop, .register .far next]
  | none => []

/-- A frame with its syndrome, and what follows it if it ends a row. -/
def frame (order : FrameOrder) (address : UInt32) (frame : Frame) : List Call :=
  frameGroup address frame.withSyndrome.1 ++
  if order.isRowEnd address then rowEnd order address else []

/-- The commands after the frames. -/
def epilogue (profile : Profile) : List Call := [
  .command .null,
  .nops 2,
  .register .mask ctl1Mask,
  .register .ctl1 0,
  .flush,
  .nops 2,
  .command .grestore,
  .nops 2,
  .command .dghigh,
  .nops 20,
  .command .start,
  .nop,
  .register .far endOfConfiguration,
  .register .mask ctl0Value,
  .register .ctl0 ctl0Value,
  .flush,
  .nops 2,
  .command .desync,
  .nops profile.trailingNops]

/-- The script of a stream whose first frame has the given address. -/
def script (profile : Profile) (memory : FrameMemory) (order : FrameOrder) (first : UInt32) :
    List Call :=
  header profile ++ preamble profile first ++
  (memory.toList.flatMap fun (address, contents) => frame order address contents) ++
  epilogue profile

end ConfigStream.Encoding

namespace ConfigStream

/-- The stream of a frame memory. There has to be a frame. -/
def encode (profile : Profile) (memory : FrameMemory) (order : FrameOrder) :
    Except Fault (List UInt8) :=
  match memory.first? with
  | none => .error .noFrames
  | some first =>
    match ({} : Writer).run (Encoding.script profile memory order first) with
    | .ok writer => .ok writer.bytes.toList
    | .error fault => .error fault

end ConfigStream
