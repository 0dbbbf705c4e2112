import ConfigStream.Database.Fault
import ConfigStream.Frame.Order
import ConfigStream.Text.Lines
import Std.Data.ExtTreeSet

/-!
# Frame lists

Lists of frame addresses, one a line in hexadecimal. In a list of all frames of a device every line
has to be an address; in other lists what is no address is skipped. What follows an address on its
line does not count.
-/

namespace ConfigStream

/-- A set of frame addresses. -/
abbrev AddressSet := Std.ExtTreeSet UInt32

namespace AddressSet

/-- The set of the listed addresses. -/
def ofAddresses (addresses : List UInt32) : AddressSet := Std.ExtTreeSet.ofList addresses

/-- The addresses that frames can have, ascending. -/
def frameAddresses (addresses : AddressSet) : List UInt32 :=
  addresses.toList.filter (· != endOfConfiguration)

/-- Read the list of all frames of a device. -/
def parseStrict (path text : String) : Except DatabaseFault AddressSet :=
  (Text.entries text).foldlM
    (fun addresses line =>
      match Text.leadingHex? line.text.toList with
      | some address => .ok (addresses.insert address)
      | none => .error (.malformed path line.number (.address line.text)))
    ∅

/-- Read a list of addresses. -/
def parse (text : String) : AddressSet :=
  ofAddresses ((Text.entries text).filterMap fun line => Text.leadingHex? line.text.toList)

end AddressSet

end ConfigStream
