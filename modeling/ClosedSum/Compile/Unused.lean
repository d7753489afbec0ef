import ClosedSum.Core.Expr
import ClosedSum.Diagnostic.Basic
import ClosedSum.Match.Pattern

/-!
# Unused parameters

A named parameter of a list that does not occur in the body of its clause is reported.
-/

namespace ClosedSum.Compile

def unusedParam (ident : Ident) : Diagnostic :=
  let d : Diagnostic := { code := .unusedParameter, message := s!"unused parameter `{ident.name}`" }
  (d.label ident.span "never used in the clause body").suggest "write `_` to ignore this field"

def unusedParams (pattern : Match.Pattern) (body : Core.Expr) : List Diagnostic :=
  match pattern with
  | .case _ (.list params) => params.filterMap fun
    | .named ident => if body.mentions ident.name then none else some (unusedParam ident)
    | .wildcard _ => none
  | _ => []

end ClosedSum.Compile
