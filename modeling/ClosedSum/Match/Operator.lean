import ClosedSum.Match.Dispatch
import ClosedSum.Variant.Check

/-!
# Match operators

Every variant has one operator. A use of it evaluates the scrutinee once, under a generated name,
and dispatches on its case.
-/

namespace ClosedSum.Match

structure Operator where
  name : String
  schema : Schema
  deriving DecidableEq, Repr, Inhabited

namespace Operator

def variant (o : Operator) : String := o.schema.variant

structure Expansion where
  expr : Core.Expr
  advice : List Advice

def expand (o : Operator) (scrutinee : Core.Expr) (clauses : List Clause) (span : Span) :
    Compile Expansion := do
  let name ← fresh "scrutinee"
  let d ← Site.compile ⟨o.schema, name, span⟩ clauses
  return ⟨.letIn name scrutinee (.dispatch d.branches), d.advice⟩

end Operator

/-- What a variant definition gives. -/
structure Definition where
  decls : Variant.Decls
  operator : Operator

def Definition.ofSpec (s : Variant.Spec) : Except Variant.Fault Definition := do
  s.check
  let decls := Variant.Decls.ofSpec s
  return ⟨decls, ⟨Variant.operatorName s.name.name, .ofDecls decls⟩⟩

/-- Operators by name, one for each name. -/
structure Registry where
  operators : List Operator := []
  deriving DecidableEq, Repr, Inhabited

namespace Registry

def size (r : Registry) : Nat := r.operators.length

def find? (r : Registry) (name : String) : Option Operator := r.operators.find? (·.name = name)

/-- Adds an operator in place of the one of its name. -/
def insert (r : Registry) (o : Operator) : Registry :=
  ⟨o :: r.operators.filter (·.name ≠ o.name)⟩

def expand (r : Registry) (operator : Ident) (scrutinee : Core.Expr) (clauses : List Clause)
    (span : Span) : Compile Operator.Expansion :=
  match r.find? operator.name with
  | some o => o.expand scrutinee clauses span
  | none => throw (.unknownOperator operator.name operator.span)

@[simp] theorem find?_insert_self (r : Registry) (o : Operator) :
    (r.insert o).find? o.name = some o := by simp [insert, find?]

theorem find?_insert_of_ne (r : Registry) {o : Operator} {name : String} (h : o.name ≠ name) :
    (r.insert o).find? name = r.find? name := by
  simp only [insert, find?, List.find?_cons, h, decide_false, List.find?_filter]
  congr 1
  funext p
  by_cases hp : p.name = name
  · simp [hp, h.symm]
  · simp [hp]

end Registry

end ClosedSum.Match
