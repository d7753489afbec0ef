import ClosedSum.Core.Expr
import ClosedSum.Match.Fault
import ClosedSum.Match.Pattern
import ClosedSum.Variant.Decl

/-!
# Case schemas

What a match has to know of a variant: the cases in order, each with its tag, its predicate and its
fields.
-/

namespace ClosedSum.Match

structure Entry where
  label : String
  tag : Nat
  predicate : String
  fields : List String
  deriving DecidableEq, Repr, Inhabited

structure Schema where
  variant : String
  entries : List Entry
  deriving DecidableEq, Repr, Inhabited

namespace Schema

def ofDecls (d : Variant.Decls) : Schema :=
  ⟨d.name, d.cases.map fun c => ⟨c.label, c.tag, c.predicate, c.fields.map (·.name)⟩⟩

def size (s : Schema) : Nat := s.entries.length

def labels (s : Schema) : List String := s.entries.map (·.label)

def find? (s : Schema) (label : String) : Option Entry := s.entries.find? (·.label = label)

/-- The entry of a label, which a clause must name as it was declared. -/
def entry (s : Schema) (label : Ident) : Except Fault Entry :=
  match s.find? label.name with
  | some e => .ok e
  | none => .error (.unknownCase s.variant label.name label.span s.labels)

/-- The fields of a case of the value that `scrutinee` holds, as calls of their accessors. -/
def fieldCalls (s : Schema) (e : Entry) (scrutinee : String) : List Core.Expr :=
  e.fields.map fun f =>
    .call (.var (Variant.accessorName s.variant e.label f)) [.var scrutinee]

end Schema

end ClosedSum.Match
