import ClosedSum.Grammar.Parse
import ClosedSum.Grammar.Tree

/-!
# Grammar of expressions

From the loosest: comparison, sum, product, sign, call. The parsers take the parser for the
expressions inside them; a depth ties the knot, and since an inner expression always stands behind a
token that was read, the number of tokens left is depth enough.
-/

namespace ClosedSum.Grammar

open Parse Surface

def comparison? : Token.Kind → Option BinaryOp
  | .symbol .equal => some .eq
  | .symbol .notEqual => some .ne
  | .symbol .less => some .lt
  | .symbol .lessEqual => some .le
  | .symbol .greater => some .gt
  | .symbol .greaterEqual => some .ge
  | _ => none

def additive? : Token.Kind → Option BinaryOp
  | .symbol .plus => some .add
  | .symbol .minus => some .sub
  | _ => none

def multiplicative? : Token.Kind → Option BinaryOp
  | .symbol .star => some .mul
  | _ => none

def binary (op : BinaryOp) (lhs rhs : Expr) : Expr := .binary (lhs.span.merge rhs.span) op lhs rhs

/-- Reads one level of operators that group from the left. -/
def level (op? : Token.Kind → Option BinaryOp) (bound : Nat) (operand : Parse Expr) :
    Parse Expr := do
  chain op? binary operand bound (← operand)

/-- Signs before an operand; each subtracts what follows it from a zero. -/
def signed (operand : Parse Expr) : Nat → Parse Expr
  | 0 => operand
  | rounds + 1 => do
    if ← isNext (.symbol .minus) then
      let minus ← sign .minus
      return binary .sub (.int minus 0) (← signed operand rounds)
    operand

/-- The argument lists behind a callee. -/
def calls (inner : Parse Expr) (bound : Nat) : Nat → Expr → Parse Expr
  | 0, callee => pure callee
  | rounds + 1, callee => do
    if ← isNext (.symbol .leftParen) then
      let opened ← sign .leftParen
      let (args, closed) ← within .call (closedList .comma .rightParen opened inner bound)
      calls inner bound rounds (.call (callee.span.merge closed) callee args)
    else return callee

def stmt (inner : Parse Expr) : Parse Stmt := do
  if ← eat (.keyword .let) then
    let name ← ident
    let _ ← sign .assign
    return .bind name (← inner)
  return .expr (← inner)

def block (inner : Parse Expr) (bound : Nat) : Parse Expr :=
  within .block do
    let opened ← sign .leftBrace
    let (stmts, closed) ← closedList .semicolon .rightBrace opened (stmt inner) bound
    return .block (opened.merge closed) stmts

/-- A conditional and those that follow its `else`. -/
def conditional (inner : Parse Expr) (bound : Nat) : Nat → Parse Expr
  | 0 => failHere .noExpression
  | rounds + 1 => within .ifExpression do
    let start ← keyword .if
    let test ← inner
    let yes ← block inner bound
    let _ ← keyword .else
    let no ← if ← isNext (.keyword .if) then conditional inner bound rounds else block inner bound
    return .ifElse (start.merge no.span) test yes no

def param : Parse Match.Param := do
  match ← kind with
  | .symbol .underscore => return .wildcard (← next).span
  | .ident name => return .named ⟨name, (← next).span⟩
  | _ => failHere .badPattern

def pattern (bound : Nat) : Parse Match.Pattern := do
  match ← kind with
  | .symbol .underscore =>
    let _ ← next
    return .default
  | .ident name =>
    let label : Ident := ⟨name, (← next).span⟩
    match ← kind with
    | .symbol .leftParen =>
      let opened := (← next).span
      let (params, _) ← closedList .comma .rightParen opened param bound
      return .case label (.list params)
    | .ident _ | .symbol .underscore => return .case label (.rest (← param))
    | _ => failHere .badPattern
  | _ => failHere .badPattern

/-- The statements of a clause whose body is `e`. -/
def clauseBody : Expr → List Stmt
  | .block _ stmts => stmts
  | e => [.expr e]

def clause (inner : Parse Expr) (bound : Nat) : Parse Clause :=
  within .clause do
    let start ← span
    let pattern ← pattern bound
    let _ ← sign .arrow
    let body ← inner
    return .mk pattern (clauseBody body) (start.merge body.span)

def matchUse (inner : Parse Expr) (bound : Nat) : Parse Expr :=
  within .matchUse do
    let operator ← ident
    let _ ← sign .bang
    let paren ← sign .leftParen
    let scrutinee ← inner
    let _ ← close paren .rightParen
    let opened ← sign .leftBrace
    let (clauses, closed) ← closedList .comma .rightBrace opened (clause inner bound) bound
    let site := operator.span.merge closed
    return .matchUse site operator scrutinee clauses site

/-- What stands behind an opening parenthesis. -/
def parenthesized (inner : Parse Expr) (opened : Span) : Parse Expr := do
  if ← isNext (.symbol .rightParen) then
    return .unit (opened.merge (← sign .rightParen))
  let e ← inner
  return e.withSpan (opened.merge (← close opened .rightParen))

def primary (inner : Parse Expr) (bound : Nat) : Parse Expr := do
  match ← kind with
  | .int value => return .int (← next).span value
  | .str text => return .str (← next).span text
  | .keyword .true => return .bool (← next).span true
  | .keyword .false => return .bool (← next).span false
  | .symbol .leftParen => parenthesized inner (← next).span
  | .symbol .leftBrace => block inner bound
  | .keyword .if => conditional inner bound bound
  | .ident name =>
    if ← isSecond (.symbol .bang) then matchUse inner bound
    else return .ident (← next).span name
  | _ => within .expression (failHere .noExpression)

def operand (inner : Parse Expr) (bound : Nat) : Parse Expr :=
  signed (do calls inner bound bound (← primary inner bound)) bound

def exprWith (inner : Parse Expr) (bound : Nat) : Parse Expr :=
  level comparison? bound <| level additive? bound <| level multiplicative? bound <|
    operand inner bound

/-- Reads an expression of at most the given depth. -/
def exprAt : Nat → Parse Expr
  | 0 => within .expression (failHere .noExpression)
  | depth + 1 => exprWith (exprAt depth) (depth + 1)

def expr : Parse Expr := fun c => exprAt c.rest.length c

end ClosedSum.Grammar
