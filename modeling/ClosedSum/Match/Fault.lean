import ClosedSum.Diagnostic.Basic

/-!
# Faults and advice on matches

A fault keeps a match from being compiled. Advice tells of a match that is compiled but covers its
variant in a doubtful way.
-/

namespace ClosedSum.Match

inductive Fault where
  | empty (variant : String) (span : Span)
  /-- The default and the clause behind it. -/
  | defaultNotLast (default following : Span)
  | repeatedCase (label : String) (span first : Span)
  | unknownCase (variant label : String) (span : Span) (known : List String)
  | unknownOperator (name : String) (span : Span)
  deriving DecidableEq, Repr

namespace Fault

def code : Fault → Code
  | .empty .. => .emptyMatch
  | .defaultNotLast .. => .defaultNotLast
  | .repeatedCase .. => .repeatedClause
  | .unknownCase .. => .unknownCase
  | .unknownOperator .. => .unknownOperator

def message : Fault → String
  | .empty variant _ => s!"match on `{variant}` has no clauses"
  | .defaultNotLast .. => "default clause must be the last clause"
  | .repeatedCase label _ _ => s!"case `{label}` is handled more than once"
  | .unknownCase variant label _ _ => s!"`{variant}` has no case `{label}`"
  | .unknownOperator name _ => s!"unknown match operator `{name}`"

def diagnostic (f : Fault) : Diagnostic :=
  let d : Diagnostic := { code := f.code, message := f.message }
  match f with
  | .empty _ span =>
    (d.label span "no clauses").suggest "add a clause for each case, or `_ => ...`"
  | .defaultNotLast default following =>
    ((d.label default "default clause here").related following
      "this clause can never be reached").suggest "move `_ => ...` to the end"
  | .repeatedCase _ span first =>
    (d.label span "handled again here").related first "first handled here"
  | .unknownCase _ _ span known =>
    let cases := ", ".intercalate known
    (d.label span "unknown case").note
      (if known.isEmpty then "the variant declares no cases" else s!"declared cases: {cases}")
  | .unknownOperator _ span =>
    (d.label span "not a match operator").note
      "match operators are generated by `variant` declarations"

end Fault

inductive Advice where
  | nonExhaustive (variant : String) (missing : List String) (span : Span)
  | redundantDefault (variant : String) (span : Span)
  /-- A clause with `found` parameters for a case with `expected` fields. -/
  | clauseArity (label : String) (expected found : Nat) (span : Span)
  deriving DecidableEq, Repr

namespace Advice

def code : Advice → Code
  | .nonExhaustive .. => .nonExhaustive
  | .redundantDefault .. => .redundantDefault
  | .clauseArity .. => .clauseArity

/-- A count of things. -/
def counted (n : Nat) (thing : String) : String :=
  if n = 1 then s!"{n} {thing}" else s!"{n} {thing}s"

def diagnostic (a : Advice) : Diagnostic :=
  let report (message : String) : Diagnostic := { code := a.code, message }
  match a with
  | .nonExhaustive variant missing span =>
    let cases := ", ".intercalate (missing.map fun label => s!"`{label}`")
    ((report s!"non-exhaustive match on `{variant}`: missing {cases}").label span
      "not all cases are handled").note
        s!"a value of a missing case raises a match failure for `{variant}`"
  | .redundantDefault variant span =>
    (report s!"default clause is unreachable: every case of `{variant}` is handled").label span
      "redundant default"
  | .clauseArity label expected found span =>
    let takes := counted found "parameter"
    let has := counted expected "field"
    (report s!"clause for `{label}` takes {takes}, but the case has {has}").label span
      s!"expected {expected}"

end Advice

end ClosedSum.Match
