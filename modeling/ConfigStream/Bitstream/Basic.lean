import ConfigStream.Encoding
import ConfigStream.Stream.Reader

/-!
# Bitstreams

A bitstream is a finished stream with the name of the part it is for and counts for its summary. It
can be checked for a sync word, summed up, and dumped in hexadecimal, 16 bytes a line.
-/

namespace ConfigStream

/-- The counts of a generated stream. -/
structure Metadata where
  /-- Frames with configuration data. -/
  frameCount : Nat := 0
  /-- Frames of zeros at row ends. -/
  paddingFrames : Nat := 0
  byteLength : Nat := 0
deriving DecidableEq, Repr

/-- A finished stream. -/
structure Bitstream where
  data : List UInt8 := []
  part : String
  metadata : Metadata := {}
deriving DecidableEq, Repr

namespace Bitstream

/-- The bitstream of a frame memory. -/
def ofMemory (profile : Profile) (memory : FrameMemory) (order : FrameOrder) :
    Except Fault Bitstream :=
  match encode profile memory order with
  | .ok data =>
    .ok {
      data
      part := profile.part
      metadata := {
        frameCount := memory.size
        paddingFrames := memory.addresses.countP order.isRowEnd
        byteLength := data.length } }
  | .error fault => .error fault

/-- Check that there is a sync word with something after it. -/
def checkSync (bitstream : Bitstream) : Except Fault Unit :=
  match findSync 0 bitstream.data with
  | none => .error .missingSync
  | some (_, rest) => if rest.isEmpty then .error .noPackets else .ok ()

/-- The line that frames a summary. -/
def rule : String := String.ofList (List.replicate 80 '=') ++ "\n"

/-- The summary. -/
def report (bitstream : Bitstream) : String :=
  rule ++ String.ofList (List.replicate 21 ' ') ++ "framewright Bitstream Report\n" ++ rule ++
    "\nPart: " ++ bitstream.part ++
    "\nBitstream size: " ++ toString bitstream.data.length ++ " bytes\n\nFrames:\n" ++
    "  Data frames: " ++ toString bitstream.metadata.frameCount ++ "\n" ++
    "  Row padding frames: " ++ toString bitstream.metadata.paddingFrames ++ "\n\n" ++ rule

/-- The bytes of a dump line. -/
def rowLength : Nat := 16

/-- The bytes in rows, after the rows in `done`. -/
def rowsFrom (done : Array (List UInt8)) (data : List UInt8) : List (List UInt8) :=
  match data with
  | [] => done.toList
  | byte :: rest =>
    rowsFrom (done.push (byte :: rest.take (rowLength - 1))) (rest.drop (rowLength - 1))
termination_by data.length
decreasing_by simp only [List.length_drop, List.length_cons]; omega

/-- One line of a dump: the offset of its first byte, and each byte followed by a blank. -/
def dumpLine (offset : Nat) (row : List UInt8) : String :=
  row.foldl (fun line byte => line ++ Text.hex 2 byte.toNat ++ " ") (Text.hex 8 offset ++ ": ")

/-- The bytes in hexadecimal, under two lines that say what they are. -/
def hexDump (bitstream : Bitstream) : String :=
  (rowsFrom #[] bitstream.data).zipIdx.foldl
    (fun text (row, index) => text ++ dumpLine (rowLength * index) row ++ "\n")
    (".comment framewright bitstream for " ++ bitstream.part ++ "\n.binary_dump\n")

end Bitstream

end ConfigStream
