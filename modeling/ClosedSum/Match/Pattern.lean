import ClosedSum.Source.Ident

/-!
# Clause patterns

A clause of a match names one case or is the default. The parameters of a case stand for its fields
by position, or a bare parameter stands for all of them and binds none.
-/

namespace ClosedSum.Match

inductive Param where
  | named (ident : Ident)
  | wildcard (span : Span)
  deriving DecidableEq, Repr, Inhabited

inductive Params where
  | list (params : List Param)
  | rest (param : Param)
  deriving DecidableEq, Repr, Inhabited

inductive Pattern where
  | case (label : Ident) (params : Params)
  | default
  deriving DecidableEq, Repr, Inhabited

namespace Pattern

def label? : Pattern → Option Ident
  | .case label _ => some label
  | .default => none

def isDefault : Pattern → Bool
  | .default => true
  | .case .. => false

end Pattern

def Param.span : Param → Span
  | .named ident => ident.span
  | .wildcard span => span

end ClosedSum.Match
