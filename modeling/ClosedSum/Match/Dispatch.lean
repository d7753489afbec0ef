import ClosedSum.Match.Clause
import ClosedSum.Match.Schema

/-!
# Dispatch

The clauses of a match become branches in the same order. A default has to be the last clause, and
each other clause has to name a case that no clause before it names; the first clause that breaks a
rule is reported. A match without a default ends in a branch that fails.
-/

namespace ClosedSum.Match

/-- What the branches of one match have in common. -/
structure Site where
  schema : Schema
  scrutinee : String
  span : Span

abbrev Compile := ExceptT Fault (StateM Nat)

structure Dispatch where
  branches : List Core.Branch := []
  advice : List Advice := []

namespace Dispatch

def addBranch (test : Core.Test) (action : Core.Expr) (advice : List Advice) (d : Dispatch) :
    Dispatch :=
  ⟨.mk test action :: d.branches, advice ++ d.advice⟩

end Dispatch

namespace Site

/-- Advice on a list of parameters that does not fit the fields. -/
def arityAdvice (e : Entry) (c : Clause) : List Advice :=
  match c.pattern with
  | .case label (.list params) =>
    if params.length = e.fields.length then []
    else [.clauseArity label.name e.fields.length params.length c.span]
  | _ => []

def action (c : Clause) (args : List Core.Expr) : StateM Nat Core.Expr := do
  return .call (← c.pattern.compile c.body).toExpr args

def missing (site : Site) (seen : List Ident) : List String :=
  site.schema.labels.filter fun label => !seen.any (·.name = label)

def close (site : Site) (seen : List Ident) : Dispatch :=
  let variant := site.schema.variant
  let missing := site.missing seen
  ⟨[.mk .always (.fail variant)],
    if missing.isEmpty then [] else [.nonExhaustive variant missing site.span]⟩

/-- Ends a match with its default. -/
def closeWith (site : Site) (seen : List Ident) (c : Clause) : StateM Nat Dispatch := do
  let advice := if (site.missing seen).isEmpty then
    [Advice.redundantDefault site.schema.variant c.span] else []
  return ⟨[.mk .always (← action c [])], advice⟩

/-- Compiles clauses in turn, given the labels of those before. -/
def compileFrom (site : Site) (seen : List Ident) : List Clause → Compile Dispatch
  | [] => return site.close seen
  | c :: cs =>
    match c.pattern with
    | .default =>
      match cs with
      | [] => site.closeWith seen c
      | following :: _ => throw (.defaultNotLast c.span following.span)
    | .case label _ =>
      match seen.find? (·.name = label.name) with
      | some first => throw (.repeatedCase label.name label.span first.span)
      | none => do
        let e ← site.schema.entry label
        let action ← action c (site.schema.fieldCalls e site.scrutinee)
        let test := .case site.scrutinee site.schema.variant e.tag e.predicate
        let rest ← site.compileFrom (label :: seen) cs
        return rest.addBranch test action (arityAdvice e c)

def compile (site : Site) (clauses : List Clause) : Compile Dispatch :=
  if clauses.isEmpty then throw (.empty site.schema.variant site.span)
  else site.compileFrom [] clauses

end Site

end ClosedSum.Match
