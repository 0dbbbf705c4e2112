import ConfigStream.Text.Numeral

/-!
# Stream profiles

A profile holds the header strings and the device constants of a stream. Its defaults are those of
the reference stream.
-/

namespace ConfigStream

/-- The settings of a stream. -/
structure Profile where
  /-- Header string `a`. -/
  design : String := "top;UserID=0XFFFFFFFF;Version=2019.1"
  /-- Header string `b`. -/
  part : String := "xczu7ev-ffvc1156-2-e"
  /-- Header string `c`. -/
  date : String := "2019/09/08"
  /-- Header string `d`. -/
  time : String := "00:00:00"
  /-- The length announced in header field `e`. -/
  declaredLength : UInt32 := 0x01366FB0
  idcode : UInt32 := 0x04A5A093
  cor0 : UInt32 := 0x38003FE5
  cor1 : UInt32 := 0x00400000
  /-- How many packets that do nothing follow the last command. -/
  trailingNops : Nat := 400
deriving DecidableEq, Repr

end ConfigStream
