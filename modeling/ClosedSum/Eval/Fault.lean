import ClosedSum.BinaryOp
import ClosedSum.Diagnostic.Basic
import ClosedSum.Eval.Value

/-!
# Evaluation faults

Why an evaluation ends without a value, and the named functions that it was in.
-/

namespace ClosedSum.Eval

inductive Cause where
  | matchFailure (variant : String)
  | undefined (name : String)
  | wrongArity (callee : String) (expected found : Nat)
  | notCallable (found : ValueType)
  | typeMismatch (expected found : ValueType)
  | badOperands (op : BinaryOp) (left right : ValueType)
  | wrongCase (accessor expected found : String)
  | tooDeep (limit : Nat)
  | noMain
  | overflow (op : BinaryOp)
  /-- An expression was reached that could not be compiled. -/
  | uncompiled
  deriving DecidableEq, Repr

namespace Cause

def code : Cause → Code
  | .matchFailure _ => .matchFailure
  | .undefined _ => .undefinedVariable
  | .wrongArity .. => .wrongArity
  | .notCallable _ => .notCallable
  | .typeMismatch .. | .badOperands .. => .typeMismatch
  | .wrongCase .. => .wrongCase
  | .tooDeep _ => .stackOverflow
  | .noMain => .noMain
  | .overflow _ => .integerOverflow
  | .uncompiled => .internal

def message : Cause → String
  | .matchFailure variant => s!"no clause of the `{variant}` match applies"
  | .undefined name => s!"undefined variable `{name}`"
  | .wrongArity callee expected found =>
    s!"`{callee}` takes {expected} argument(s) but {found} were supplied"
  | .notCallable found => s!"a value of type `{found.name}` is not callable"
  | .typeMismatch expected found => s!"expected `{expected.name}`, found `{found.name}`"
  | .badOperands op left right => s!"cannot apply `{op.symbol}` to `{left.name}` and `{right.name}`"
  | .wrongCase accessor expected found => s!"`{accessor}` expects a `{expected}`, found `{found}`"
  | .tooDeep limit => s!"maximum call depth of {limit} exceeded"
  | .noMain => "program has no `main` function"
  | .overflow op => s!"integer overflow in `{op.symbol}`"
  | .uncompiled => "evaluated code that failed to compile"

end Cause

structure Fault where
  cause : Cause
  /-- The functions that were left, the innermost first. -/
  frames : List String := []
  deriving DecidableEq, Repr

namespace Fault

def leaving (f : Fault) (name : String) : Fault := { f with frames := f.frames ++ [name] }

def diagnostic (f : Fault) : Diagnostic :=
  { code := f.cause.code, message := f.cause.message, notes := f.frames.map fun n => s!"in `{n}`" }

end Fault

end ClosedSum.Eval
