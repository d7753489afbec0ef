import ClosedSum.Variant.Names
import ClosedSum.Variant.Spec

/-!
# Generated declarations

A variant gives one abstract type and, under it, one type for each case with its constructor, its
predicate and an accessor for each field.
-/

namespace ClosedSum.Variant

structure FieldDecl where
  name : String
  accessor : String
  options : List Attribute
  deriving DecidableEq, Repr, Inhabited

structure CaseDecl where
  /-- The name of the type and of its constructor. -/
  name : String
  label : String
  parent : String
  tag : Nat
  predicate : String
  options : List Attribute
  fields : List FieldDecl
  deriving DecidableEq, Repr, Inhabited

structure Decls where
  name : String
  options : List Attribute
  cases : List CaseDecl
  deriving DecidableEq, Repr, Inhabited

namespace Decls

/-- The abstract type counts as well. -/
def size (d : Decls) : Nat := d.cases.length + 1

def case? (d : Decls) (tag : Nat) : Option CaseDecl := d.cases[tag]?

def ofField (variant label : String) (f : FieldSpec) : FieldDecl :=
  ⟨f.name.name, accessorName variant label f.name.name, f.options⟩

def ofCase (variant : String) (c : CaseSpec) (tag : Nat) : CaseDecl :=
  let label := c.label.name
  { name := caseTypeName variant label, label, parent := variant, tag,
    predicate := predicateName variant label, options := c.options,
    fields := c.fields.map (ofField variant label) }

/-- The tag of a case is its place in the definition. -/
def ofSpec (s : Spec) : Decls :=
  { name := s.name.name, options := s.options,
    cases := s.cases.zipIdx.map fun (c, tag) => ofCase s.name.name c tag }

@[simp] theorem length_cases_ofSpec (s : Spec) : (ofSpec s).cases.length = s.cases.length := by
  simp [ofSpec]

theorem case?_ofSpec (s : Spec) (tag : Nat) :
    (ofSpec s).case? tag = s.cases[tag]?.map fun c => ofCase s.name.name c tag := by
  simp [case?, ofSpec, List.getElem?_zipIdx, Function.comp_def]

end Decls

end ClosedSum.Variant
