import ClosedSum.Eval.Call

/-!
# Evaluation

An expression is evaluated in an environment, given what a call does. Calls are tied to it by the
depth that is left: every body is evaluated one call deeper than the call that enters it, so an
evaluation ends.
-/

namespace ClosedSum.Eval

open Run

def passes (env : Env) : Core.Test → Run Bool
  | .always => pure true
  | .case scrutinee variant tag _ => do
    match ← lookup env scrutinee with
    | .variant v _ t _ => return v = variant && t = tag
    | _ => return false

mutual

def evalWith (call : Value → List Value → Run Value) : Core.Expr → Env → Run Value
  | .lit l, _ => pure (.ofLiteral l)
  | .var name, env => lookup env name
  | .call callee args, env => do
    let f ← evalWith call callee env
    call f (← evalArgs call args env)
  | .lambda params variadic body, env => newClosure ⟨params, variadic, body⟩ env.current
  | .letIn name value body, env => do
    let v ← evalWith call value env
    let inner ← enter (env.push [(name, v)])
    evalWith call body inner
  | .seq exprs, env => evalSeq call exprs .unit env
  | .ifElse test yes no, env => do
    match ← evalWith call test env with
    | .bool true => evalWith call yes env
    | .bool false => evalWith call no env
    | v => fail (.typeMismatch .bool v.type)
  | .binary op lhs rhs, env => do
    let left ← evalWith call lhs env
    let right ← evalWith call rhs env
    ofExcept (operate op left right)
  | .dispatch branches, env => evalBranches call branches env
  | .fail variant, _ => fail (.matchFailure variant)
  | .error, _ => fail .uncompiled

def evalArgs (call : Value → List Value → Run Value) : List Core.Expr → Env → Run (List Value)
  | [], _ => pure []
  | e :: es, env => do
    let v ← evalWith call e env
    return v :: (← evalArgs call es env)

/-- The value of the last expression, after that of those before it. -/
def evalSeq (call : Value → List Value → Run Value) : List Core.Expr → Value → Env → Run Value
  | [], last, _ => pure last
  | e :: es, _, env => do
    let v ← evalWith call e env
    evalSeq call es v env

def evalBranches (call : Value → List Value → Run Value) : List Core.Branch → Env → Run Value
  | [], _ => fail .uncompiled
  | .mk test action :: bs, env => do
    if ← passes env test then evalWith call action env else evalBranches call bs env

end

/-- Calls a value with `left` calls to go before the limit. -/
def callAt (limit : Nat) : Nat → Value → List Value → Run Value
  | 0 => callWith fun _ _ _ => fail (.tooDeep limit)
  | left + 1 => callWith fun name? env body =>
    within name? (evalWith (callAt limit left) body env)

/-- Evaluates an expression outside of all calls. -/
def eval (limit : Nat) (e : Core.Expr) (env : Env) : Run Value :=
  evalWith (callAt limit limit) e env

end ClosedSum.Eval
