import ConfigStream.Database.Fault
import ConfigStream.Text.Quoted

/-!
# Reporting a failure

A failure is told with what was being done and the causes behind it, outermost first. A single cause
is indented; several are numbered. Further lines of a cause are indented below its first.
-/

namespace ConfigStream

/-- What is told of a fault: itself, and the file fault behind it. -/
def Fault.causes (fault : Fault) : List String :=
  fault.message :: match fault with
    | .file fault => [fault.message]
    | _ => []

/-- What is told of a database fault: itself, and what is behind it. A refused bit is told as the
refusal. -/
def DatabaseFault.causes : DatabaseFault → List String
  | .refused fault => fault.causes
  | .unreadable path fault => [(DatabaseFault.unreadable path fault).message, fault.message]
  | fault => [fault.message]

/-- Why a profile cannot be loaded. -/
inductive ProfileFault where
  | unreadable (fault : FileFault)
  | malformed
deriving DecidableEq, Repr

/-- The wording of a profile fault. -/
def ProfileFault.message : ProfileFault → String
  | .unreadable fault => "I/O error: " ++ fault.message
  | .malformed => "Failed to parse profile: not a settings document for a profile"

namespace CommandLine

/-- What went wrong, and while doing what. -/
inductive Failure where
  | loadProfile (path : String) (fault : ProfileFault)
  | openDatabase (path : String) (fault : DatabaseFault)
  | readRegion (fault : DatabaseFault)
  | readHarness (path : String) (fault : FileFault)
  | harness (path : String) (fault : DatabaseFault)
  | readFeatures (path : String) (fault : FileFault)
  | features (path : String) (fault : DatabaseFault)
  | encode (fault : Fault)
  | write (path : String) (fault : Fault)
  | readBitstream (path : String) (fault : FileFault)
  | loadFrames (path : String) (fault : DatabaseFault)
  | decode (path : String) (fault : Fault)
deriving DecidableEq, Repr

namespace Failure

/-- What is told of a failure, outermost first. -/
def told : Failure → List String
  | .loadProfile path fault => ["Failed to load profile " ++ Text.quoted path, fault.message]
  | .openDatabase path fault => ("Failed to open database " ++ Text.quoted path) :: fault.causes
  | .readRegion fault => fault.causes
  | .readHarness path fault => ["Failed to read harness " ++ Text.quoted path, fault.message]
  | .harness path fault => ("Invalid harness " ++ Text.quoted path) :: fault.causes
  | .readFeatures path fault => ["Failed to read features " ++ Text.quoted path, fault.message]
  | .features path fault =>
    ("Failed to apply features from " ++ Text.quoted path) :: fault.causes
  | .encode fault => fault.causes
  | .write path fault => ("Failed to write " ++ Text.quoted path) :: fault.causes
  | .readBitstream path fault => ["Failed to read " ++ Text.quoted path, fault.message]
  | .loadFrames path fault => ("Failed to load frames " ++ Text.quoted path) :: fault.causes
  | .decode path fault => ("Failed to decode " ++ Text.quoted path) :: fault.causes

/-- A text whose lines after the first are indented by a number of blanks. -/
def hang (indent : Nat) (text : String) : String :=
  String.ofList (text.toList.flatMap fun c =>
    if c = '\n' then c :: List.replicate indent ' ' else [c])

/-- The lines of the causes. -/
def causeLines : List String → String
  | [] => ""
  | [cause] => "\n\nCaused by:\n    " ++ hang 4 cause
  | causes =>
    causes.zipIdx.foldl
      (fun text (cause, index) =>
        let number := toString index
        text ++ "\n" ++ String.ofList (List.replicate (5 - number.length) ' ') ++ number ++ ": " ++
          hang 7 cause)
      "\n\nCaused by:"

/-- The report of a failure. -/
def report (failure : Failure) : String :=
  match failure.told with
  | [] => "Error: "
  | what :: causes => "Error: " ++ what ++ causeLines causes

end Failure

end CommandLine

end ConfigStream
