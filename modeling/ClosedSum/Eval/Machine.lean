import ClosedSum.Eval.Operate
import ClosedSum.Eval.Scope

/-!
# The machine

What evaluation changes: the store of scopes, the text printed so far and the number of closures
made. A fault does not undo a change.
-/

namespace ClosedSum.Eval

structure Machine where
  store : Store
  output : String := ""
  closures : Nat := 0

/-- A computation on the machine that gives a value or a fault. -/
abbrev Run := ExceptT Fault (StateM Machine)

namespace Run

def fail {α : Type} (cause : Cause) : Run α := throw { cause }

def ofExcept {α : Type} : Except Cause α → Run α
  | .ok a => pure a
  | .error cause => fail cause

/-- Changes the store as entering a scope does. -/
def enter (f : Store → Env × Store) : Run Env :=
  modifyGet fun m => ((f m.store).1, { m with store := (f m.store).2 })

def lookup (env : Env) (name : String) : Run Value := do
  match env.lookup? (← get).store name with
  | some v => pure v
  | none => fail (.undefined name)

def printLine (line : String) : Run Unit :=
  modify fun m => { m with output := m.output ++ line ++ "\n" }

/-- A closure unlike all others. -/
def newClosure (lambda : Core.Lambda) (scope : Nat) : Run Value :=
  modifyGet fun m =>
    (.callable (.closure m.closures lambda scope), { m with closures := m.closures + 1 })

/-- Names the function, if it has a name, in the faults that leave it. -/
def within {α : Type} (name? : Option String) (r : Run α) : Run α := fun m =>
  match r m, name? with
  | (.error f, m), some name => (.error (f.leaving name), m)
  | result, _ => result

end Run

end ClosedSum.Eval
