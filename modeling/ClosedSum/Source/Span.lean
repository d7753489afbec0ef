/-!
# Spans

A span is a range of byte offsets in a source text, its end excluded. Generated code, which stands
nowhere in the source, carries the empty span at the start.
-/

namespace ClosedSum

structure Span where
  start : Nat
  stop : Nat
  deriving DecidableEq, Repr, Inhabited

namespace Span

/-- The span of generated code. -/
def none : Span := ⟨0, 0⟩

def point (offset : Nat) : Span := ⟨offset, offset⟩

def size (s : Span) : Nat := s.stop - s.start

def isEmpty (s : Span) : Bool := s.start = s.stop

/-- The least span that covers both. -/
def merge (s t : Span) : Span := ⟨min s.start t.start, max s.stop t.stop⟩

instance : ToString Span := ⟨fun s => s!"{s.start}..{s.stop}"⟩

/-- Offsets above this do not fit a span. -/
def maxOffset : Nat := Nat.pow 2 32 - 1

inductive RangeError where
  | startTooLarge (offset : Nat)
  | endTooLarge (offset : Nat)
  deriving DecidableEq, Repr

def RangeError.message : RangeError → String
  | .startTooLarge n => s!"span start {n} exceeds u32::MAX"
  | .endTooLarge n => s!"span end {n} exceeds u32::MAX"

/-- The span between two offsets. A start out of range is reported before an end. -/
def ofOffsets (start stop : Nat) : Except RangeError Span :=
  if maxOffset < start then .error (.startTooLarge start)
  else if maxOffset < stop then .error (.endTooLarge stop)
  else .ok ⟨start, stop⟩

theorem merge_comm (s t : Span) : s.merge t = t.merge s := by
  simp [merge, Nat.min_comm, Nat.max_comm]

theorem merge_assoc (s t u : Span) : (s.merge t).merge u = s.merge (t.merge u) := by
  simp [merge, Nat.min_assoc, Nat.max_assoc]

@[simp] theorem merge_self (s : Span) : s.merge s = s := by simp [merge]

end Span

end ClosedSum
