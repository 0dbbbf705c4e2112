import ConfigStream.Report

/-!
# Kinds of events

The checks of a report, taken out by kind. A report is clean if the two sides of every check agree
(`Report.isClean_iff`).
-/

namespace ConfigStream

namespace Event

/-- The two sides of a transport check. -/
def crcCheck? : Event → Option (UInt32 × UInt32)
  | .diagnostic (.crcCheck written computed) => some (written, computed)
  | _ => none

/-- The frame and the two sides of a syndrome check. -/
def eccCheck? : Event → Option (UInt32 × UInt64 × UInt64)
  | .diagnostic (.eccCheck frame observed computed) => some (frame, observed, computed)
  | _ => none

/-- The announcement of payload: a register write or a type 2 packet, with its register and its
words. -/
def announcement? : Event → Option Diagnostic
  | .diagnostic (.write register words) => some (.write register words)
  | .diagnostic (.continued register words) => some (.continued register words)
  | _ => none

/-- Whether an event tells of frame data: a data bit, or the syndrome check of a frame. -/
def isFrameData : Event → Bool
  | .bit _ | .diagnostic (.eccCheck ..) => true
  | _ => false

/-- Whether an event tells of something that a stream of packets should not have. -/
def isIrregular : Event → Bool
  | .diagnostic (.dummyAt _) | .diagnostic (.noSyncFrom _) | .diagnostic (.moveLength _)
  | .diagnostic (.unknownHeader ..) => true
  | _ => false

/-- An event without the frame that it names as the place of data. -/
def unplaced : Event → Event
  | .bit address => .bit { address with frame := 0 }
  | .diagnostic (.eccCheck _ observed computed) => .diagnostic (.eccCheck 0 observed computed)
  | event => event

end Event

namespace Report

/-- The bits of a report are the addresses that it tells of. -/
theorem mem_bits {report : Report} {address : BitAddress} :
    address ∈ report.bits ↔ .bit address ∈ report.events := by
  constructor
  · intro haddress
    obtain ⟨event, hevent, hbit⟩ := List.mem_filterMap.1 haddress
    cases event with
    | bit other =>
        obtain rfl := Option.some.inj hbit
        exact hevent
    | diagnostic => cases hbit
  · exact fun hevent => List.mem_filterMap.2 ⟨_, hevent, rfl⟩

/-- The transport checks in stream order, each with what was written and what was computed. -/
def crcChecks (report : Report) : List (UInt32 × UInt32) := report.events.filterMap Event.crcCheck?

/-- The announcements of payload in stream order. -/
def announcements (report : Report) : List Diagnostic :=
  report.events.filterMap Event.announcement?

/-- The syndrome checks in stream order, each with its frame, what was observed and what was
computed. -/
def eccChecks (report : Report) : List (UInt32 × UInt64 × UInt64) :=
  report.events.filterMap Event.eccCheck?

/-- The failed checks of a report are those of its parts. -/
theorem failedChecks_append (first second : List Event) :
    (⟨first ++ second⟩ : Report).failedChecks =
      (⟨first⟩ : Report).failedChecks ++ (⟨second⟩ : Report).failedChecks := by
  simp [failedChecks, diagnostics]

/-- A report is clean if no diagnostic in it is of a failed check. -/
theorem isClean_iff_forall (report : Report) :
    report.isClean = true ↔
      ∀ diagnostic, .diagnostic diagnostic ∈ report.events → diagnostic.isFailedCheck = false := by
  rw [isClean, List.isEmpty_iff, failedChecks, List.filter_eq_nil_iff]
  constructor
  · intro h diagnostic hevent
    exact Bool.eq_false_iff.2 (h diagnostic (List.mem_filterMap.2 ⟨_, hevent, rfl⟩))
  · intro h diagnostic hfound
    obtain ⟨event, hevent, hdiagnostic⟩ := List.mem_filterMap.1 hfound
    cases event with
    | bit address => cases hdiagnostic
    | diagnostic other =>
        obtain rfl := Option.some.inj hdiagnostic
        rw [h other hevent]
        exact Bool.false_ne_true

/-- A report is clean if the two sides of every check agree. -/
theorem isClean_iff (report : Report) :
    report.isClean = true ↔ (∀ check ∈ report.crcChecks, check.1 = check.2) ∧
      ∀ check ∈ report.eccChecks, check.2.1 = check.2.2 := by
  rw [isClean_iff_forall]
  constructor
  · intro h
    constructor
    · intro check hcheck
      obtain ⟨event, hevent, hfound⟩ := List.mem_filterMap.1 hcheck
      match event, hfound with
      | .diagnostic (.crcCheck written computed), rfl =>
          exact bne_eq_false_iff_eq.1 (h _ hevent)
    · intro check hcheck
      obtain ⟨event, hevent, hfound⟩ := List.mem_filterMap.1 hcheck
      match event, hfound with
      | .diagnostic (.eccCheck frame observed computed), rfl =>
          exact bne_eq_false_iff_eq.1 (h _ hevent)
  · intro h diagnostic hevent
    cases diagnostic with
    | crcCheck written computed =>
        exact bne_eq_false_iff_eq.2 (h.1 _ (List.mem_filterMap.2 ⟨_, hevent, rfl⟩))
    | eccCheck frame observed computed =>
        exact bne_eq_false_iff_eq.2 (h.2 _ (List.mem_filterMap.2 ⟨_, hevent, rfl⟩))
    | _ => rfl

end Report

end ConfigStream
