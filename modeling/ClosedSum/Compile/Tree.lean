import ClosedSum.Compile.Globals
import ClosedSum.Compile.Unused

/-!
# Compiling source trees

An expression of the source has one of the core language, except that a block becomes a chain of
bindings and sequences, and a match is expanded by its operator. A match that cannot be expanded is
reported and leaves an error in its place.
-/

namespace ClosedSum.Compile

/-- The counter of generated names, and the diagnostics in the order they were found. -/
structure Progress where
  fresh : Nat := 0
  diagnostics : List Diagnostic := []

abbrev Step := StateM Progress

def report (ds : List Diagnostic) : Step Unit :=
  modify fun p => { p with diagnostics := p.diagnostics ++ ds }

/-- The expressions of a block as one. -/
def sequence : List Core.Expr → Core.Expr
  | [] => .unit
  | [e] => e
  | es => .seq es

def expandMatch (registry : Match.Registry) (operator : Ident) (scrutinee : Core.Expr)
    (clauses : List Match.Clause) (site : Span) : Step Core.Expr := do
  let p ← get
  let (result, fresh) := registry.expand operator scrutinee clauses site p.fresh
  set { p with fresh }
  match result with
  | .ok expansion =>
    report (expansion.advice.map (·.diagnostic))
    return expansion.expr
  | .error f =>
    report [f.diagnostic]
    return .error

mutual

def expr (registry : Match.Registry) : Surface.Expr → Step Core.Expr
  | .unit _ => pure .unit
  | .bool _ value => pure (.lit (.bool value))
  | .int _ value => pure (.lit (.int value))
  | .str _ text => pure (.lit (.str text))
  | .ident _ name => pure (.var name)
  | .call _ callee args => do
    let callee ← expr registry callee
    return .call callee (← exprs registry args)
  | .binary _ op lhs rhs => do
    let lhs ← expr registry lhs
    return .binary op lhs (← expr registry rhs)
  | .ifElse _ test yes no => do
    let test ← expr registry test
    let yes ← expr registry yes
    return .ifElse test yes (← expr registry no)
  | .block _ body => do return sequence (← stmts registry body)
  | .matchUse _ operator scrutinee cs site => do
    let scrutinee ← expr registry scrutinee
    expandMatch registry operator scrutinee (← clauses registry cs) site
  | .error _ => pure .error

def exprs (registry : Match.Registry) : List Surface.Expr → Step (List Core.Expr)
  | [] => pure []
  | e :: es => do
    let e ← expr registry e
    return e :: (← exprs registry es)

/-- A binding takes the statements after it as its body. -/
def stmts (registry : Match.Registry) : List Surface.Stmt → Step (List Core.Expr)
  | [] => pure []
  | .expr e :: rest => do
    let e ← expr registry e
    return e :: (← stmts registry rest)
  | .bind name value :: rest => do
    let value ← expr registry value
    return [.letIn name.name value (sequence (← stmts registry rest))]

def clauses (registry : Match.Registry) : List Surface.Clause → Step (List Match.Clause)
  | [] => pure []
  | .mk pattern body span :: rest => do
    let body := sequence (← stmts registry body)
    report (unusedParams pattern body)
    return ⟨pattern, body, span⟩ :: (← clauses registry rest)

end

end ClosedSum.Compile
