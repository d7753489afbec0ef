import ClosedSum.Diagnostic.Basic
import ClosedSum.Source.Lines

/-!
# Diagnostic queue

The queue takes the diagnostics of one source text, refuses errors beyond a limit and repetitions,
and gives back what it took in the order of the source.
-/

namespace ClosedSum

open Text

namespace Diagnostic

structure QueueConfig where
  /-- The number of errors taken between two flushes; zero stands for any number. -/
  errorLimit : Nat := 10
  deduplicate : Bool := true
  deriving DecidableEq, Repr, Inhabited

def QueueConfig.unlimited : QueueConfig := ⟨0, false⟩

structure Queue where
  lines : LineTable := {}
  sourceSize : Nat := 0
  config : QueueConfig := {}
  /-- What was taken since the last flush, oldest first. -/
  taken : List Diagnostic := []
  errorCount : Nat := 0
  warningCount : Nat := 0
  /-- Errors refused by the limit since the last flush. -/
  suppressed : Nat := 0
  deriving DecidableEq, Repr, Inhabited

namespace Queue

def ofSource (source : List Char) (config : QueueConfig) : Queue :=
  { lines := .ofText source, sourceSize := byteLength source, config }

def hasErrors (q : Queue) : Bool := 0 < q.errorCount

def isEmpty (q : Queue) : Bool := q.taken.isEmpty

def limitReached (q : Queue) : Bool :=
  0 < q.config.errorLimit && q.config.errorLimit ≤ q.errorCount

/-- Takes a diagnostic and counts it. -/
def take (q : Queue) (d : Diagnostic) : Queue :=
  { q with
    taken := q.taken ++ [d]
    errorCount := q.errorCount + if d.isError then 1 else 0
    warningCount := q.warningCount + if d.isWarning then 1 else 0 }

/-- Adds a diagnostic and tells whether it was taken. The limit is asked before the repetition. -/
def add (q : Queue) (d : Diagnostic) : Bool × Queue :=
  if d.isError && q.limitReached then (false, { q with suppressed := q.suppressed + 1 })
  else if q.config.deduplicate && q.taken.contains d then (false, q)
  else (true, q.take d)

def addAll (q : Queue) (ds : List Diagnostic) : Queue := ds.foldl (fun q d => (q.add d).2) q

/-- Line of the start of a span, and its distance in bytes from the start of that line. -/
def position (q : Queue) (span : Span) : Nat × Nat :=
  let offset := min span.start q.sourceSize
  let line := q.lines.lineOf offset
  (line, offset - (q.lines.start? line).getD 0 + 1)

/-- A diagnostic without a primary label stands at the start of the source. -/
def key (q : Queue) (d : Diagnostic) : Nat × Nat := q.position (d.primarySpan?.getD .none)

def comesBefore (q : Queue) (d e : Diagnostic) : Bool :=
  (q.key d).1 < (q.key e).1 || ((q.key d).1 = (q.key e).1 && (q.key d).2 ≤ (q.key e).2)

/-- Tells how many errors the limit kept back. -/
def overflowNotice (q : Queue) : Diagnostic :=
  let d : Diagnostic :=
    { code := .tooManyErrors, message := s!"too many errors; {q.suppressed} more not shown" }
  d.note s!"the error limit is {q.config.errorLimit}; raise it with `--error-limit`"

/-- Empties the queue. Diagnostics at the same position keep the order in which they came. -/
def flush (q : Queue) : List Diagnostic × Queue :=
  let notice := if 0 < q.suppressed then [q.overflowNotice] else []
  (q.taken.mergeSort q.comesBefore ++ notice,
    { q with taken := [], errorCount := 0, warningCount := 0, suppressed := 0 })

end Queue

end Diagnostic

end ClosedSum
