import ClosedSum.Diagnostic.Manual

/-!
# Command output

What a command writes, and whether it succeeded.
-/

namespace ClosedSum.Command

structure Output where
  stdout : String := ""
  stderr : String := ""
  success : Bool := true
  deriving DecidableEq, Repr, Inhabited

def Output.failure (stderr : String) : Output := { stderr, success := false }

/-- Shows the manual page of a code, or its description when it has none. -/
def explain (text : String) : Output :=
  match Code.parse? text with
  | none => .failure (s!"Unknown error code: {text}\n\n" ++
      "Codes have the format EXXXX (errors) or WXXXX (warnings) where X is a digit.\n" ++
      "Examples: E0001, E3003, W3001\n")
  | some code =>
    match Manual.page? code with
    | some page => { stdout := page.text }
    | none => { stdout := s!"{code.id}: {code.description}\n" }

end ClosedSum.Command
