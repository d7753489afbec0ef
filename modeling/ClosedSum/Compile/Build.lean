import ClosedSum.Compile.Module
import ClosedSum.Diagnostic.Queue
import ClosedSum.Grammar.Module
import ClosedSum.Token.Scan

/-!
# Builds

A build takes a source text through scanning, parsing and compiling, and queues what each of them
reports. A text with faults in its tokens or its grammar is not compiled.
-/

namespace ClosedSum.Compile

structure Settings where
  denyWarnings : Bool := false
  errorLimit : Nat := 10
  deriving DecidableEq, Repr, Inhabited

structure Build where
  program : Core.Program
  /-- In the order of the source. -/
  diagnostics : List Diagnostic
  errorCount : Nat
  warningCount : Nat

namespace Build

def hasErrors (b : Build) : Bool := 0 < b.errorCount

/-- The program of a text and all that is reported on it, in the order it was found. -/
def front (source : List Char) : Core.Program × List Diagnostic :=
  let scanned := Token.scan source
  let parsed := Grammar.parse scanned.tokens
  let faults := scanned.faults.map (·.diagnostic) ++ parsed.faults.map (·.diagnostic)
  if faults.isEmpty then
    let compiled := Compiled.ofModule parsed.tree 0
    (compiled.program, compiled.diagnostics)
  else ({}, faults)

def ofSource (settings : Settings) (source : List Char) : Build :=
  let (program, found) := front source
  let reported := if settings.denyWarnings then found.map (·.deny) else found
  let queue := (Diagnostic.Queue.ofSource source ⟨settings.errorLimit, true⟩).addAll reported
  ⟨program, queue.flush.1, queue.errorCount, queue.warningCount⟩

end Build

end ClosedSum.Compile
