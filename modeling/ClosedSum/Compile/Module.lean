import ClosedSum.Compile.Tree
import ClosedSum.Core.Program

/-!
# Compiling modules

First the names of all items are collected, then the bodies of the functions that are kept are
compiled in their order.
-/

namespace ClosedSum.Compile

structure Compiled where
  program : Core.Program
  diagnostics : List Diagnostic

def Compiled.hasErrors (c : Compiled) : Bool := c.diagnostics.any (·.isError)

def function (registry : Match.Registry) (f : Surface.Function) : Step Core.Function := do
  return ⟨f.name.name, f.params.map (·.name), ← expr registry f.body⟩

/-- Compiles a module, with generated names numbered from `fresh` on. -/
def Compiled.ofModule (m : Surface.Module) (fresh : Nat) : Compiled :=
  let c := Collected.ofModule m
  let (functions, p) := (c.functions.mapM (function c.registry)).run ⟨fresh, c.diagnostics⟩
  ⟨⟨c.decls, functions⟩, p.diagnostics⟩

end ClosedSum.Compile
