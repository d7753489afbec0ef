import ClosedSum.Eval.Machine

/-!
# Calls

What a call does, up to the evaluation of a body. Arguments are counted before anything else.
-/

namespace ClosedSum.Eval

open Run

def expectArity (callee : String) (expected found : Nat) : Run Unit :=
  if found = expected then pure () else fail (.wrongArity callee expected found)

def expectOne (callee : String) : List Value → Run Value
  | [v] => pure v
  | args => fail (.wrongArity callee 1 args.length)

def expectInt : Value → Run Int
  | .int n => pure n
  | v => fail (.typeMismatch .int v.type)

def Builtin.apply (b : Builtin) (args : List Value) : Run Value :=
  match b, args with
  | .print, _ => do
    printLine (" ".intercalate (args.map Value.text))
    return .unit
  | .max, [v, w] => do return .int (Max.max (← expectInt v) (← expectInt w))
  | .min, [v, w] => do return .int (Min.min (← expectInt v) (← expectInt w))
  | .toString, [v] => return .str v.text
  | _, _ => fail (.wrongArity b.name (b.arity?.getD 0) args.length)

/-- The name of what a value is: of its case, if it has one. -/
def Value.kindName : Value → String
  | .variant _ name _ _ => name
  | v => v.type.name

def readField (c : Case) (index : Nat) (name : String) (v : Value) : Run Value :=
  match v with
  | .variant _ _ _ fields =>
    if c.holds v then
      match fields[index]? with
      | some field => pure field
      | none => fail .uncompiled
    else fail (.wrongCase name c.typeName v.kindName)
  | _ => fail (.wrongCase name c.typeName v.kindName)

/-- Parameters with their arguments; the last of several with one name counts. -/
def bindParams (params : List String) (args : List Value) : List (String × Value) :=
  (params.zip args).reverse

def accepts (f : Core.Lambda) (count : Nat) : Bool :=
  if f.variadic then f.arity ≤ count else count = f.arity

def expectAccepted (f : Core.Lambda) (count : Nat) : Run Unit :=
  if accepts f count then pure () else fail (.wrongArity "closure" f.arity count)

/-- Calls a value. `enter` evaluates the body of a function, which may have a name, in its
environment. -/
def callWith (enter : Option String → Env → Core.Expr → Run Value) (callee : Value)
    (args : List Value) : Run Value :=
  match callee with
  | .callable (.closure _ f scope) => do
    expectAccepted f args.length
    let env ← Run.enter (Env.extending scope (bindParams (f.params.map (·.name)) args))
    enter none env f.body
  | .callable (.function f) => do
    expectArity f.name f.params.length args.length
    let env ← Run.enter (Env.child (bindParams f.params args))
    enter f.name env f.body
  | .callable (.constructor c) => do
    expectArity c.typeName c.arity args.length
    return .variant c.variant c.typeName c.tag args
  | .callable (.accessor c index name) => do readField c index name (← expectOne name args)
  | .callable (.predicate c) => do return .bool (c.holds (← expectOne c.predicate args))
  | .callable (.builtin b) => b.apply args
  | v => fail (.notCallable v.type)

end ClosedSum.Eval
