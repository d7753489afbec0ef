import ClosedSum.Source.Ident

/-!
# Variant definitions

A variant is a closed sum: its cases are listed once, each with its fields. Attributes are kept as
they were written.
-/

namespace ClosedSum

/-- The text between the brackets of an attribute. -/
structure Attribute where
  text : String
  span : Span
  deriving DecidableEq, Repr, Inhabited

namespace Variant

structure FieldSpec where
  name : Ident
  options : List Attribute
  deriving DecidableEq, Repr, Inhabited

structure CaseSpec where
  label : Ident
  options : List Attribute
  fields : List FieldSpec
  span : Span
  deriving DecidableEq, Repr, Inhabited

/-- The position of a case in the list is its tag. -/
structure Spec where
  name : Ident
  options : List Attribute
  cases : List CaseSpec
  span : Span
  deriving DecidableEq, Repr, Inhabited

end Variant

end ClosedSum
