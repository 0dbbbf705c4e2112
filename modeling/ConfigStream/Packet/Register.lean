import ConfigStream.Text.Numeral

/-!
# Named numbers and the configuration registers

Registers and commands are numbers of which some have names. `NameTable` is such a numbering: a
value with a name is written by it, any other by a label and at least four hexadecimal digits.
Reading takes a name first and the labelled form second.
-/

namespace ConfigStream

/-- A numbering: the label of values without a name, one past the largest value, and the names. -/
structure NameTable where
  label : String
  limit : Nat
  names : List (Nat × String)

namespace NameTable

/-- The name of a value, if it has one. -/
def name? (table : NameTable) (value : Nat) : Option String :=
  table.names.lookup value

/-- The value with the given name. -/
def value? (table : NameTable) (name : String) : Option Nat :=
  (table.names.find? fun entry => entry.2 == name).map Prod.fst

/-- The written form of a value. -/
def print (table : NameTable) (value : Nat) : String :=
  (table.name? value).getD (table.label ++ Text.hex 4 value)

/-- The value after the label, as hexadecimal digits. -/
def labelled? (table : NameTable) (text : String) : Option Nat :=
  if table.label.toList.isPrefixOf text.toList then
    Text.unsigned? 16 table.limit (text.toList.drop table.label.length)
  else none

/-- Read a written value. -/
def parse? (table : NameTable) (text : String) : Option Nat :=
  (table.value? text).or (table.labelled? text)

end NameTable

/-- The address of a configuration register. -/
structure Register where
  raw : UInt16
deriving DecidableEq, Repr, Inhabited

namespace Register

/-- The check sum register. -/
def crc : Register := ⟨0x00⟩

/-- The frame address register. -/
def far : Register := ⟨0x01⟩

/-- The frame data input register. -/
def fdri : Register := ⟨0x02⟩

/-- The command register. -/
def cmd : Register := ⟨0x04⟩

/-- Control register 0. -/
def ctl0 : Register := ⟨0x05⟩

/-- The write mask of the control registers. -/
def mask : Register := ⟨0x06⟩

/-- Configuration options register 0. -/
def cor0 : Register := ⟨0x09⟩

/-- The device identification register. -/
def idcode : Register := ⟨0x0C⟩

/-- Configuration options register 1. -/
def cor1 : Register := ⟨0x0E⟩

/-- The warm boot start address register. -/
def wbstar : Register := ⟨0x10⟩

/-- The watchdog register. -/
def timer : Register := ⟨0x11⟩

/-- Control register 1. -/
def ctl1 : Register := ⟨0x18⟩

/-- The registers with public names. -/
def table : NameTable where
  label := "reg"
  limit := Text.limit16
  names := [
    (0x00, "CRC"), (0x01, "FAR"), (0x02, "FDRI"), (0x03, "FDRO"), (0x04, "CMD"),
    (0x05, "CTL0"), (0x06, "MASK"), (0x07, "STAT"), (0x08, "LOUT"), (0x09, "COR0"),
    (0x0A, "MFWR"), (0x0B, "CBC"), (0x0C, "IDCODE"), (0x0D, "AXSS"), (0x0E, "COR1"),
    (0x10, "WBSTAR"), (0x11, "TIMER"), (0x16, "BOOTSTS"), (0x18, "CTL1"), (0x1F, "BSPI")]

/-- The public name of a register, if it has one. -/
def name? (register : Register) : Option String :=
  table.name? register.raw.toNat

/-- The written form of a register. -/
def text (register : Register) : String :=
  table.print register.raw.toNat

/-- Read the written form of a register. -/
def parse? (text : String) : Option Register :=
  (table.parse? text).map fun value => ⟨UInt16.ofNat value⟩

/-- What is said of a text that names no register. -/
def unknownMessage (text : String) : String :=
  "unknown Register '" ++ text ++ "'"

end Register

end ConfigStream
