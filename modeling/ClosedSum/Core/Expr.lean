import ClosedSum.BinaryOp

/-!
# Core expressions

The small language that matches are compiled to and that is evaluated. A dispatch tries its branches
in order; the test of a branch asks for the case of the value bound to a name.
-/

namespace ClosedSum.Core

inductive Literal where
  | unit
  | bool (value : Bool)
  | int (value : Int)
  | str (text : String)
  deriving DecidableEq, Repr, Inhabited

/-- A parameter that stands for a wildcard is marked as unused. -/
structure Param where
  name : String
  unused : Bool := false
  deriving DecidableEq, Repr, Inhabited

inductive Test where
  | always
  /-- Whether `scrutinee` holds a value of the case with this tag. The predicate of that case would
  answer the same. -/
  | case (scrutinee variant : String) (tag : Nat) (predicate : String)
  deriving DecidableEq, Repr, Inhabited

def Test.isAlways : Test → Bool
  | .always => true
  | .case .. => false

def Test.mentions (name : String) : Test → Bool
  | .always => false
  | .case scrutinee .. => scrutinee = name

mutual

inductive Expr where
  | lit (value : Literal)
  | var (name : String)
  | call (callee : Expr) (args : List Expr)
  /-- A variadic function takes any number of arguments beyond its parameters and drops them. -/
  | lambda (params : List Param) (variadic : Bool) (body : Expr)
  | letIn (name : String) (value body : Expr)
  /-- The value of the last expression, or unit if there is none. -/
  | seq (exprs : List Expr)
  | ifElse (test yes no : Expr)
  | binary (op : BinaryOp) (lhs rhs : Expr)
  | dispatch (branches : List Branch)
  /-- Raises the match failure of a variant. -/
  | fail (variant : String)
  /-- Stands for an expression that could not be compiled. -/
  | error

inductive Branch where
  | mk (test : Test) (action : Expr)

end

instance : Inhabited Expr := ⟨.error⟩

namespace Branch

def test : Branch → Test
  | .mk test _ => test

def action : Branch → Expr
  | .mk _ action => action

end Branch

structure Lambda where
  params : List Param
  variadic : Bool
  body : Expr

namespace Lambda

def arity (f : Lambda) : Nat := f.params.length

def toExpr (f : Lambda) : Expr := .lambda f.params f.variadic f.body

end Lambda

namespace Expr

def unit : Expr := .lit .unit

mutual

/-- Whether a name occurs free. -/
def mentions (name : String) : Expr → Bool
  | .lit _ | .fail _ | .error => false
  | .var x => x = name
  | .call callee args => callee.mentions name || mentionsAny name args
  | .lambda params _ body => !params.any (·.name = name) && body.mentions name
  | .letIn x value body => value.mentions name || (x ≠ name && body.mentions name)
  | .seq exprs => mentionsAny name exprs
  | .ifElse test yes no => test.mentions name || yes.mentions name || no.mentions name
  | .binary _ lhs rhs => lhs.mentions name || rhs.mentions name
  | .dispatch branches => mentionsBranch name branches

def mentionsAny (name : String) : List Expr → Bool
  | [] => false
  | e :: es => e.mentions name || mentionsAny name es

def mentionsBranch (name : String) : List Branch → Bool
  | [] => false
  | .mk test action :: bs => test.mentions name || action.mentions name || mentionsBranch name bs

end

mutual

/-- Whether some part could not be compiled. -/
def hasErrors : Expr → Bool
  | .error => true
  | .lit _ | .var _ | .fail _ => false
  | .call callee args => callee.hasErrors || anyErrors args
  | .lambda _ _ body => body.hasErrors
  | .letIn _ value body => value.hasErrors || body.hasErrors
  | .seq exprs => anyErrors exprs
  | .ifElse test yes no => test.hasErrors || yes.hasErrors || no.hasErrors
  | .binary _ lhs rhs => lhs.hasErrors || rhs.hasErrors
  | .dispatch branches => branchErrors branches

def anyErrors : List Expr → Bool
  | [] => false
  | e :: es => e.hasErrors || anyErrors es

def branchErrors : List Branch → Bool
  | [] => false
  | .mk _ action :: bs => action.hasErrors || branchErrors bs

end

theorem mentionsAny_eq_any (name : String) (es : List Expr) :
    mentionsAny name es = es.any (mentions name) := by
  induction es with
  | nil => simp [mentionsAny]
  | cons e es ih => simp [mentionsAny, ih]

theorem anyErrors_eq_any (es : List Expr) : anyErrors es = es.any hasErrors := by
  induction es with
  | nil => simp [anyErrors]
  | cons e es ih => simp [anyErrors, ih]

end Expr

end ClosedSum.Core
