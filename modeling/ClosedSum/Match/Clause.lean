import ClosedSum.Core.Expr
import ClosedSum.Match.Pattern
import ClosedSum.Variant.Names

/-!
# Compiled clauses

A clause becomes a function: without parameters for the default, with one parameter for each of a
list, and with none but any number of arguments for a bare parameter. Generated names are numbered
by a counter that is passed along.
-/

namespace ClosedSum.Match

def fresh (stem : String) : StateM Nat String := fun n => (freshName stem n, n + 1)

structure Clause where
  pattern : Pattern
  body : Core.Expr
  span : Span

namespace Clause

/-- The span of the label, or of the whole clause when it is the default. -/
def selectorSpan (c : Clause) : Span := (c.pattern.label?.map (·.span)).getD c.span

end Clause

/-- A wildcard gets a name of its own. -/
def Param.compile : Param → StateM Nat Core.Param
  | .named ident => pure { name := ident.name }
  | .wildcard _ => do return { name := ← fresh "_", unused := true }

def Pattern.compile (p : Pattern) (body : Core.Expr) : StateM Nat Core.Lambda :=
  match p with
  | .default => pure ⟨[], false, body⟩
  | .case _ (.list params) => do return ⟨← params.mapM Param.compile, false, body⟩
  | .case _ (.rest _) => pure ⟨[], true, body⟩

end ClosedSum.Match
