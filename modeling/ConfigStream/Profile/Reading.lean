import ConfigStream.Profile.Basic
import ConfigStream.Profile.Document

/-!
# Reading a profile

A profile is read from a settings document. Every setting names a field of the profile and has its
kind of value; a field may be set once, and the others keep their defaults.
-/

namespace ConfigStream.Profile

/-- A number as a 32-bit field has it. -/
def word? (number : Int) : Option UInt32 :=
  if 0 ≤ number ∧ number < Text.limit32 then some (UInt32.ofNat number.toNat) else none

/-- The profile with one field set, if there is such a field and it can have the value. -/
def set? (profile : Profile) : String × Document.Value → Option Profile
  | ("design", .text design) => some { profile with design }
  | ("part", .text part) => some { profile with part }
  | ("date", .text date) => some { profile with date }
  | ("time", .text time) => some { profile with time }
  | ("declared_length", .number number) =>
    (word? number).map fun declaredLength => { profile with declaredLength }
  | ("idcode", .number number) => (word? number).map fun idcode => { profile with idcode }
  | ("cor0", .number number) => (word? number).map fun cor0 => { profile with cor0 }
  | ("cor1", .number number) => (word? number).map fun cor1 => { profile with cor1 }
  | ("trailing_nops", .number number) =>
    if 0 ≤ number then some { profile with trailingNops := number.toNat } else none
  | _ => none

/-- The profile with the given settings, each of a field of its own. -/
def ofSettings? (settings : List (String × Document.Value)) : Option Profile :=
  if (settings.map Prod.fst).Nodup then settings.foldlM set? {} else none

/-- Read a profile. -/
def parse? (text : String) : Option Profile :=
  (Document.parse? text).bind ofSettings?

end ConfigStream.Profile
