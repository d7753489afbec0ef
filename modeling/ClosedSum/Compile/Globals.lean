import ClosedSum.Grammar.Tree
import ClosedSum.Match.Operator

/-!
# Global names

Functions, types, constructors, predicates, accessors and match operators share one namespace. An
item is kept if none of its names is taken, by an item before it or by itself.
-/

namespace ClosedSum.Compile

inductive GlobalKind where
  | function | type | operator | constructor | predicate | accessor
  deriving DecidableEq, Repr

def GlobalKind.describe : GlobalKind → String
  | .function => "a function"
  | .type => "a type"
  | .operator => "a match operator"
  | .constructor => "a constructor"
  | .predicate => "a predicate"
  | .accessor => "an accessor"

/-- A global name, and the text that it comes from. -/
structure Global where
  name : String
  kind : GlobalKind
  span : Span
  deriving DecidableEq, Repr

/-- The names of one case, in the order in which they are taken. -/
def caseGlobals (c : Variant.CaseSpec) (d : Variant.CaseDecl) : List Global :=
  ⟨d.name, .constructor, c.label.span⟩ :: ⟨d.predicate, .predicate, c.label.span⟩ ::
    (c.fields.zip d.fields).map fun (f, fd) => ⟨fd.accessor, .accessor, f.name.span⟩

def variantGlobals (s : Variant.Spec) (d : Match.Definition) : List Global :=
  ⟨d.decls.name, .type, s.name.span⟩ :: ⟨d.operator.name, .operator, s.name.span⟩ ::
    (s.cases.zip d.decls.cases).flatMap fun (c, cd) => caseGlobals c cd

def functionGlobal (f : Surface.Function) : Global := ⟨f.name.name, .function, f.name.span⟩

def clash (g first : Global) : Diagnostic :=
  let d : Diagnostic :=
    { code := .duplicateGlobal, message := s!"`{g.name}` is defined more than once" }
  (d.label g.span s!"defined again here as {g.kind.describe}").related first.span
    s!"first defined here as {first.kind.describe}"

/-- Reports each name that is taken, by a known name or by one before it. -/
def clashes (known : List Global) : List Global → List Diagnostic
  | [] => []
  | g :: gs =>
    match known.find? (·.name = g.name) with
    | some first => clash g first :: clashes known gs
    | none => clashes (g :: known) gs

/-- The items that are kept, the names they take, and reports on the others. -/
structure Collected where
  globals : List Global := []
  decls : List Variant.Decls := []
  registry : Match.Registry := {}
  functions : List Surface.Function := []
  diagnostics : List Diagnostic := []

namespace Collected

def report (c : Collected) (ds : List Diagnostic) : Collected :=
  { c with diagnostics := c.diagnostics ++ ds }

/-- Takes names, if all are free, and then does what keeping their item means. -/
def take (c : Collected) (gs : List Global) (keep : Collected → Collected) : Collected :=
  match clashes c.globals gs with
  | [] => keep { c with globals := gs.reverse ++ c.globals }
  | ds => c.report ds

def add (c : Collected) : Surface.Item → Collected
  | .variant s =>
    match Match.Definition.ofSpec s with
    | .error f => c.report [f.diagnostic]
    | .ok d => c.take (variantGlobals s d) fun c =>
      { c with decls := c.decls ++ [d.decls], registry := c.registry.insert d.operator }
  | .function f => c.take [functionGlobal f] fun c => { c with functions := c.functions ++ [f] }

def ofModule (m : Surface.Module) : Collected := m.items.foldl add {}

end Collected

end ClosedSum.Compile
