import ClosedSum.Diagnostic.Basic
import ClosedSum.Variant.Spec

/-!
# Checking variant definitions

The labels of a variant differ from each other, and so do the fields of each of its cases. The first
repetition in the order of the text is reported.
-/

namespace ClosedSum.Variant

inductive Fault where
  | repeatedCase (variant label : String) (span first : Span)
  | repeatedField (case field : String) (span first : Span)
  deriving DecidableEq, Repr

namespace Fault

def code : Fault → Code
  | .repeatedCase .. => .duplicateCase
  | .repeatedField .. => .duplicateField

def message : Fault → String
  | .repeatedCase variant label _ _ =>
    s!"variant `{variant}` declares case `{label}` more than once"
  | .repeatedField case field _ _ => s!"case `{case}` declares field `{field}` more than once"

def span : Fault → Span
  | .repeatedCase _ _ span _ | .repeatedField _ _ span _ => span

def first : Fault → Span
  | .repeatedCase _ _ _ first | .repeatedField _ _ _ first => first

def diagnostic (f : Fault) : Diagnostic :=
  let d : Diagnostic := { code := f.code, message := f.message }
  (d.label f.span "declared again here").related f.first "first declared here"

end Fault

/-- The first of the identifiers whose name was seen, with the span where it was. -/
def repetition? (seen : List Ident) : List Ident → Option (Ident × Span)
  | [] => none
  | i :: is =>
    match seen.find? (·.name = i.name) with
    | some first => some (i, first.span)
    | none => repetition? (i :: seen) is

def checkFields (c : CaseSpec) : Except Fault Unit :=
  match repetition? [] (c.fields.map (·.name)) with
  | some (field, first) => .error (.repeatedField c.label.name field.name field.span first)
  | none => .ok ()

/-- Checks cases in turn, given the labels of those before. -/
def checkCases (variant : String) (seen : List Ident) : List CaseSpec → Except Fault Unit
  | [] => .ok ()
  | c :: cs =>
    match seen.find? (·.name = c.label.name) with
    | some first => .error (.repeatedCase variant c.label.name c.label.span first.span)
    | none => do
      checkFields c
      checkCases variant (c.label :: seen) cs

def Spec.check (s : Spec) : Except Fault Unit := checkCases s.name.name [] s.cases

end ClosedSum.Variant
