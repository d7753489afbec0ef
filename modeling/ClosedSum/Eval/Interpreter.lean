import ClosedSum.Eval.Basic

/-!
# Interpreters

An interpreter holds a program's globals and runs its functions. Builtin functions come first among
the globals, then what each variant generates, then the functions; the later of two with one name
counts.
-/

namespace ClosedSum.Eval

def caseGlobals (d : Variant.CaseDecl) : List (String × Value) :=
  let c := Case.ofDecl d
  (d.name, .callable (.constructor c)) :: (d.predicate, .callable (.predicate c)) ::
    d.fields.zipIdx.map fun (f, index) =>
      (f.accessor, .callable (.accessor c index f.accessor))

/-- The globals of a program in the order of their definition. -/
def programGlobals (p : Core.Program) : List (String × Value) :=
  Builtin.all.map (fun b => (b.name, .callable (.builtin b))) ++
    p.decls.flatMap (fun d => d.cases.flatMap caseGlobals) ++
    p.functions.map fun f => (f.name, .callable (.function f))

structure Interpreter where
  machine : Machine
  /-- How deep calls may be nested. -/
  limit : Nat

namespace Interpreter

def defaultLimit : Nat := 256

def ofProgram (p : Core.Program) (limit : Nat) : Interpreter :=
  ⟨{ store := .ofGlobals (programGlobals p).reverse }, limit⟩

def run {α : Type} (i : Interpreter) (r : Run α) : Except Fault α × Interpreter :=
  let (result, machine) := r.run i.machine
  (result, { i with machine })

/-- Calls a value outside of all calls. -/
def call (i : Interpreter) (callee : Value) (args : List Value) :
    Except Fault Value × Interpreter :=
  i.run (callAt i.limit i.limit callee args)

def eval (i : Interpreter) (e : Core.Expr) : Except Fault Value × Interpreter :=
  i.run (Eval.eval i.limit e {})

def global? (i : Interpreter) (name : String) : Option Value :=
  i.machine.store.lookup? Store.global name

def callGlobal (i : Interpreter) (name : String) (args : List Value) :
    Except Fault Value × Interpreter :=
  match i.global? name with
  | some f => i.call f args
  | none => (.error { cause := .undefined name }, i)

/-- Runs the function `main`, which takes no arguments. -/
def runMain (i : Interpreter) : Except Fault Value × Interpreter :=
  match i.global? "main" with
  | some (.callable (.function f)) => i.call (.callable (.function f)) []
  | _ => (.error { cause := .noMain }, i)

def output (i : Interpreter) : String := i.machine.output

def clearOutput (i : Interpreter) : Interpreter :=
  { i with machine := { i.machine with output := "" } }

end Interpreter

end ClosedSum.Eval
