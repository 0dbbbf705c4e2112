import ConfigStream.Packet.Register

/-!
# Command codes

The values written to the command register.
-/

namespace ConfigStream

/-- A command code. -/
structure Command where
  raw : UInt32
deriving DecidableEq, Repr, Inhabited

namespace Command

/-- Do nothing. -/
def null : Command := ⟨0x00⟩

/-- Write configuration data. -/
def wcfg : Command := ⟨0x01⟩

/-- Last frame. -/
def dghigh : Command := ⟨0x03⟩

/-- Begin the start-up sequence. -/
def start : Command := ⟨0x05⟩

/-- Reset the check sum. -/
def rcrc : Command := ⟨0x07⟩

/-- Switch the clock. -/
def switch : Command := ⟨0x09⟩

/-- Restore the registers from the captured state. -/
def grestore : Command := ⟨0x0A⟩

/-- End of configuration. -/
def desync : Command := ⟨0x0D⟩

/-- The commands with public names. -/
def table : NameTable where
  label := "cmd"
  limit := Text.limit32
  names := [
    (0x00, "NULL"), (0x01, "WCFG"), (0x02, "MFW"), (0x03, "DGHIGH"), (0x04, "RCFG"),
    (0x05, "START"), (0x06, "RCAP"), (0x07, "RCRC"), (0x08, "AGHIGH"), (0x09, "SWITCH"),
    (0x0A, "GRESTORE"), (0x0B, "SHUTDOWN"), (0x0C, "GCAPTURE"), (0x0D, "DESYNC"),
    (0x0F, "IPROG"), (0x10, "CRCC"), (0x11, "LTIMER"), (0x12, "BSPI_READ"), (0x13, "FALL_EDGE")]

/-- The public name of a command, if it has one. -/
def name? (command : Command) : Option String :=
  table.name? command.raw.toNat

/-- The written form of a command. -/
def text (command : Command) : String :=
  table.print command.raw.toNat

/-- Read the written form of a command. -/
def parse? (text : String) : Option Command :=
  (table.parse? text).map fun value => ⟨UInt32.ofNat value⟩

/-- What is said of a text that names no command. -/
def unknownMessage (text : String) : String :=
  "unknown Command '" ++ text ++ "'"

end Command

end ConfigStream
