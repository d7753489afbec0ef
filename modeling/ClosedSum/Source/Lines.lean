import ClosedSum.Source.Span
import ClosedSum.Text.Blank
import ClosedSum.Text.Utf8

/-!
# Lines and columns

A line table holds the offset at which each line of a text starts. Lines and columns count from one;
a column counts characters, except in the order of diagnostics, where it counts bytes.
-/

namespace ClosedSum

open Text

/-- The empty table belongs to no text: every offset is on its first line, which starts nowhere. -/
structure LineTable where
  starts : List Nat := []
  deriving DecidableEq, Repr, Inhabited

namespace LineTable

def startsAfterNewlines (offset : Nat) : List Char → List Nat
  | [] => []
  | c :: cs =>
    let next := offset + c.utf8Size
    if c = '\n' then next :: startsAfterNewlines next cs else startsAfterNewlines next cs

def ofText (text : List Char) : LineTable := ⟨0 :: startsAfterNewlines 0 text⟩

def lineOf (t : LineTable) (offset : Nat) : Nat := max 1 (t.starts.countP (· ≤ offset))

def start? (t : LineTable) : Nat → Option Nat
  | 0 => none
  | line + 1 => t.starts[line]?

/-- Line and column of an offset; one past the end stands at the end, and one inside a character in
the first column. -/
def lineColumn (t : LineTable) (text : List Char) (offset : Nat) : Nat × Nat :=
  let line := t.lineOf offset
  let start := (t.start? line).getD 0
  let stop := max (min offset (byteLength text)) start
  (line, ((slice? text start stop).getD []).length + 1)

/-- The text of a line without its newline and the carriage returns before it. -/
def lineText? (t : LineTable) (text : List Char) (line : Nat) : Option (List Char) := do
  let start ← t.start? line
  let stop := ((t.start? (line + 1)).map (· - 1)).getD (byteLength text)
  let cs ← slice? text start (max stop start)
  return dropEnd (· = '\r') cs

end LineTable

end ClosedSum
