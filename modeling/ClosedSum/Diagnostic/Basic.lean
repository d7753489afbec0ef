import ClosedSum.Diagnostic.Code
import ClosedSum.Source.Span

/-!
# Diagnostics

A diagnostic reports one fault or one piece of advice. Its labels point into the source; the first
primary label is where it stands.
-/

namespace ClosedSum

inductive Severity where
  | error
  | warning
  deriving DecidableEq, Repr, Inhabited

namespace Severity

def ofCode (code : Code) : Severity := if code.isWarning then .warning else .error

def name : Severity → String
  | .error => "error"
  | .warning => "warning"

end Severity

structure Label where
  span : Span
  message : String
  primary : Bool
  deriving DecidableEq, Repr, Inhabited

structure Diagnostic where
  code : Code
  severity : Severity := .ofCode code
  message : String := ""
  labels : List Label := []
  notes : List String := []
  suggestions : List String := []
  deriving DecidableEq, Repr, Inhabited

namespace Diagnostic

/-- Adds a label on the offending text. -/
def label (d : Diagnostic) (span : Span) (message : String) : Diagnostic :=
  { d with labels := d.labels ++ [⟨span, message, true⟩] }

/-- Adds a label on text that explains the fault. -/
def related (d : Diagnostic) (span : Span) (message : String) : Diagnostic :=
  { d with labels := d.labels ++ [⟨span, message, false⟩] }

def note (d : Diagnostic) (text : String) : Diagnostic := { d with notes := d.notes ++ [text] }

def suggest (d : Diagnostic) (text : String) : Diagnostic :=
  { d with suggestions := d.suggestions ++ [text] }

def primarySpan? (d : Diagnostic) : Option Span := (d.labels.find? (·.primary)).map (·.span)

def isError (d : Diagnostic) : Bool := d.severity = .error

def isWarning (d : Diagnostic) : Bool := d.severity = .warning

/-- Turns a warning into an error with the same code, and leaves an error alone. -/
def deny (d : Diagnostic) : Diagnostic :=
  if d.isWarning then
    { d with severity := .error }.note s!"`{d.code.id}` is denied by `--deny-warnings`"
  else d

/-- The diagnostic on plain lines, without the source. -/
def summary (d : Diagnostic) : String :=
  let labels := d.labels.map fun l =>
    let role := if l.primary then "at" else "see"
    s!"\n  {role} {l.span}: {l.message}"
  let notes := d.notes.map fun n => s!"\n  = note: {n}"
  let suggestions := d.suggestions.map fun s => s!"\n  = help: {s}"
  s!"{d.severity.name}[{d.code.id}]: {d.message}" ++ String.join (labels ++ notes ++ suggestions)

@[simp] theorem isError_deny (d : Diagnostic) : d.deny.isError = true := by
  cases h : d.severity <;> simp [deny, isError, isWarning, note, h]

theorem deny_deny (d : Diagnostic) : d.deny.deny = d.deny := by
  have h : d.deny.severity = .error := by simpa [isError] using isError_deny d
  rw [deny, isWarning, h]
  simp

end Diagnostic

end ClosedSum
