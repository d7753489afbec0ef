import ClosedSum.BinaryOp
import ClosedSum.Match.Pattern
import ClosedSum.Variant.Spec

/-!
# Source trees

What a source file says, as a list of variants and functions. Every expression knows the span it was
written in, parentheses included. Trees can be compared, with their spans.
-/

namespace ClosedSum.Surface

mutual

inductive Expr where
  | unit (span : Span)
  | bool (span : Span) (value : Bool)
  | int (span : Span) (value : Int)
  | str (span : Span) (text : String)
  | ident (span : Span) (name : String)
  | call (span : Span) (callee : Expr) (args : List Expr)
  | binary (span : Span) (op : BinaryOp) (lhs rhs : Expr)
  | ifElse (span : Span) (test yes no : Expr)
  | block (span : Span) (stmts : List Stmt)
  /-- A match keeps the span of its own text beside the one with parentheses. -/
  | matchUse (span : Span) (operator : Ident) (scrutinee : Expr) (clauses : List Clause)
      (site : Span)
  /-- Stands for an expression that could not be read. -/
  | error (span : Span)

inductive Stmt where
  | bind (name : Ident) (value : Expr)
  | expr (value : Expr)

/-- The value of a clause is that of the last statement of its body. -/
inductive Clause where
  | mk (pattern : Match.Pattern) (body : List Stmt) (span : Span)

end

namespace Expr

def span : Expr → Span
  | .unit s | .bool s _ | .int s _ | .str s _ | .ident s _ | .call s _ _ | .binary s _ _ _
  | .ifElse s _ _ _ | .block s _ | .matchUse s _ _ _ _ | .error s => s

/-- The same expression written in another span. -/
def withSpan (s : Span) : Expr → Expr
  | .unit _ => .unit s
  | .bool _ value => .bool s value
  | .int _ value => .int s value
  | .str _ text => .str s text
  | .ident _ name => .ident s name
  | .call _ callee args => .call s callee args
  | .binary _ op lhs rhs => .binary s op lhs rhs
  | .ifElse _ test yes no => .ifElse s test yes no
  | .block _ stmts => .block s stmts
  | .matchUse _ operator scrutinee clauses site => .matchUse s operator scrutinee clauses site
  | .error _ => .error s

@[simp] theorem span_withSpan (s : Span) (e : Expr) : (e.withSpan s).span = s := by
  cases e <;> rfl

end Expr

namespace Clause

def pattern : Clause → Match.Pattern
  | .mk pattern _ _ => pattern

def body : Clause → List Stmt
  | .mk _ body _ => body

def span : Clause → Span
  | .mk _ _ span => span

/-- The span of the label, or of the whole clause when it is the default. -/
def selectorSpan (c : Clause) : Span := (c.pattern.label?.map (·.span)).getD c.span

end Clause

structure Function where
  name : Ident
  params : List Ident
  body : Expr
  span : Span

inductive Item where
  | variant (spec : Variant.Spec)
  | function (definition : Function)

structure Module where
  items : List Item

namespace Module

def variants (m : Module) : List Variant.Spec :=
  m.items.filterMap fun
    | .variant spec => some spec
    | .function _ => none

def functions (m : Module) : List Function :=
  m.items.filterMap fun
    | .function definition => some definition
    | .variant _ => none

end Module

/-! ## Equality -/

mutual

/-- Trees are compared node by node, spans included. -/
def Expr.same : Expr → Expr → Bool
  | .unit s, .unit s' | .error s, .error s' => s = s'
  | .bool s v, .bool s' v' => s = s' && v = v'
  | .int s v, .int s' v' => s = s' && v = v'
  | .str s v, .str s' v' | .ident s v, .ident s' v' => s = s' && v = v'
  | .call s f as, .call s' f' as' => s = s' && f.same f' && sameExprs as as'
  | .binary s op a b, .binary s' op' a' b' => s = s' && op = op' && a.same a' && b.same b'
  | .ifElse s t y n, .ifElse s' t' y' n' => s = s' && t.same t' && y.same y' && n.same n'
  | .block s ss, .block s' ss' => s = s' && sameStmts ss ss'
  | .matchUse s o e cs t, .matchUse s' o' e' cs' t' =>
    s = s' && o = o' && e.same e' && sameClauses cs cs' && t = t'
  | _, _ => false

def sameExprs : List Expr → List Expr → Bool
  | [], [] => true
  | e :: es, e' :: es' => e.same e' && sameExprs es es'
  | _, _ => false

def Stmt.same : Stmt → Stmt → Bool
  | .bind i e, .bind i' e' => i = i' && e.same e'
  | .expr e, .expr e' => e.same e'
  | _, _ => false

def sameStmts : List Stmt → List Stmt → Bool
  | [], [] => true
  | s :: ss, s' :: ss' => s.same s' && sameStmts ss ss'
  | _, _ => false

def Clause.same : Clause → Clause → Bool
  | .mk p ss s, .mk p' ss' s' => p = p' && sameStmts ss ss' && s = s'

def sameClauses : List Clause → List Clause → Bool
  | [], [] => true
  | c :: cs, c' :: cs' => c.same c' && sameClauses cs cs'
  | _, _ => false

end

mutual

theorem Expr.same_iff : (e e' : Expr) → (e.same e' = true ↔ e = e')
  | .unit _, e' | .bool .., e' | .int .., e' | .str .., e' | .ident .., e' | .error _, e' => by
    cases e' <;> simp [Expr.same]
  | .call _ f as, e' => by
    cases e' <;> simp [Expr.same, f.same_iff, sameExprs_iff as, and_assoc]
  | .binary _ _ a b, e' => by cases e' <;> simp [Expr.same, a.same_iff, b.same_iff, and_assoc]
  | .ifElse _ t y n, e' => by
    cases e' <;> simp [Expr.same, t.same_iff, y.same_iff, n.same_iff, and_assoc]
  | .block _ ss, e' => by cases e' <;> simp [Expr.same, sameStmts_iff ss]
  | .matchUse _ _ e cs _, e' => by
    cases e' <;> simp [Expr.same, e.same_iff, sameClauses_iff cs, and_assoc]

theorem sameExprs_iff : (es es' : List Expr) → (sameExprs es es' = true ↔ es = es')
  | [], es' => by cases es' <;> simp [sameExprs]
  | e :: es, es' => by cases es' <;> simp [sameExprs, e.same_iff, sameExprs_iff es]

theorem Stmt.same_iff : (s s' : Stmt) → (s.same s' = true ↔ s = s')
  | .bind _ e, s' => by cases s' <;> simp [Stmt.same, e.same_iff]
  | .expr e, s' => by cases s' <;> simp [Stmt.same, e.same_iff]

theorem sameStmts_iff : (ss ss' : List Stmt) → (sameStmts ss ss' = true ↔ ss = ss')
  | [], ss' => by cases ss' <;> simp [sameStmts]
  | s :: ss, ss' => by cases ss' <;> simp [sameStmts, s.same_iff, sameStmts_iff ss]

theorem Clause.same_iff : (c c' : Clause) → (c.same c' = true ↔ c = c')
  | .mk _ ss _, .mk .. => by simp [Clause.same, sameStmts_iff ss, and_assoc]

theorem sameClauses_iff : (cs cs' : List Clause) → (sameClauses cs cs' = true ↔ cs = cs')
  | [], cs' => by cases cs' <;> simp [sameClauses]
  | c :: cs, cs' => by cases cs' <;> simp [sameClauses, c.same_iff, sameClauses_iff cs]

end

instance : DecidableEq Expr := fun e e' => decidable_of_iff _ (e.same_iff e')

deriving instance DecidableEq for Function, Item, Module

end ClosedSum.Surface
