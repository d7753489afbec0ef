/-!
# Name tables

A name table numbers the distinct texts it has seen, in order of first sight, and keeps the number
of each beside the texts. Number zero is the empty text in every table.
-/

namespace ClosedSum

structure NameTable where
  /-- The number of each text. -/
  numbers : List (String × Nat) := [("", 0)]
  /-- The text of each number. -/
  texts : Array String := #[""]

namespace NameTable

/-- Numbers have 32 bits. -/
def capacity : Nat := Nat.pow 2 32

structure Overflow where
  /-- How many texts the table holds. -/
  count : Nat
  deriving DecidableEq, Repr

def Overflow.message (e : Overflow) : String := s!"interner exceeded capacity: {e.count} strings"

def empty : NameTable := {}

def size (t : NameTable) : Nat := t.texts.size

/-- A table is empty while the empty text is all it holds. -/
def isEmpty (t : NameTable) : Bool := t.size ≤ 1

def find? (t : NameTable) (text : String) : Option Nat := t.numbers.lookup text

def push (t : NameTable) (text : String) : NameTable :=
  ⟨(text, t.size) :: t.numbers, t.texts.push text⟩

/-- Numbers a text that was looked for in an earlier state of the table. If it was missing there, it
is looked for again, since others may have brought it in meanwhile. -/
def internSince (t earlier : NameTable) (text : String) : Except Overflow Nat × NameTable :=
  match earlier.find? text with
  | some n => (.ok n, t)
  | none =>
    match t.find? text with
    | some n => (.ok n, t)
    | none => if t.size < capacity then (.ok t.size, t.push text) else (.error ⟨t.size⟩, t)

/-- Numbers a text, which joins the table at its first sight if there is room. -/
def tryIntern (t : NameTable) (text : String) : Except Overflow Nat × NameTable :=
  t.internSince t text

/-- Numbers a text where there is room for it. A full table has no number left for a text it has not
seen, and the one that comes back then stands for no text at all. -/
def intern (t : NameTable) (text : String) : Nat × NameTable :=
  match t.tryIntern text with
  | (.ok n, t) => (n, t)
  | (.error e, t) => (e.count, t)

/-- The text of a number; one never given out stands for the empty text. -/
def text (t : NameTable) (n : Nat) : String := t.texts[n]?.getD ""

end NameTable

end ClosedSum
