import ClosedSum.Grammar.Expression

/-!
# Grammar of modules

A module is a list of variants and functions. A fault ends its item; reading goes on at the next
token that can begin one.
-/

namespace ClosedSum.Grammar

open Parse Surface

/-- Splits off the attributes at the front. -/
def takeAttributes (previous : Span) : List Token → List Attribute × Cursor
  | ⟨.attr text, span⟩ :: tokens =>
    let (attributes, c) := takeAttributes span tokens
    (⟨text, span⟩ :: attributes, c)
  | tokens => ([], ⟨tokens, previous⟩)

def attributes : Parse (List Attribute) := fun c =>
  let (attributes, c) := takeAttributes c.previous c.rest
  (.ok attributes, c)

/-- Where an item starts: at its first attribute if it has one. -/
def startOf (options : List Attribute) (span : Span) : Span :=
  (options.head?.map (·.span)).getD span

def field : Parse Variant.FieldSpec := do
  let options ← attributes
  return ⟨← within .case ident, options⟩

def caseSpec (bound : Nat) : Parse Variant.CaseSpec := do
  let options ← attributes
  let label ← within .case ident
  let (fields, closed) ← do
    if ← isNext (.symbol .leftParen) then
      let opened ← sign .leftParen
      closedList .comma .rightParen opened field bound
    else pure ([], label.span)
  return ⟨label, options, fields, (startOf options label.span).merge closed⟩

def variantSpec (options : List Attribute) (bound : Nat) : Parse Variant.Spec :=
  within .variant do
    let start := startOf options (← span)
    let _ ← keyword .variant
    let name ← ident
    let opened ← sign .leftBrace
    let (cases, closed) ← closedList .comma .rightBrace opened (caseSpec bound) bound
    return ⟨name, options, cases, start.merge closed⟩

def function (bound : Nat) : Parse Function :=
  within .function do
    let start ← keyword .fn
    let name ← ident
    let opened ← sign .leftParen
    let (params, _) ← closedList .comma .rightParen opened ident bound
    let _ ← sign .assign
    let body ← expr
    return ⟨name, params, body, start.merge body.span⟩

def item (bound : Nat) : Parse Item := do
  let options ← attributes
  match ← kind with
  | .keyword .variant => return .variant (← variantSpec options bound)
  | .keyword .fn =>
    if options.isEmpty then return .function (← function bound)
    failHere (.unexpected "`variant` after attributes")
  | _ =>
    failHere (.unexpected
      (if options.isEmpty then "`variant` or `fn`" else "`variant` after attributes"))

def startsItem : Token.Kind → Bool
  | .keyword .variant | .keyword .fn | .attr _ => true
  | _ => false

/-- What was read of a file: its items, and the faults of the items that were left out. -/
structure Parsed where
  tree : Module
  faults : List Fault

def items : Nat → Cursor → List Item × List Fault
  | 0, _ => ([], [])
  | rounds + 1, c =>
    if c.atEnd then ([], [])
    else match item c.rest.length c with
      | (.ok i, c) =>
        let (is, fs) := items rounds c
        (i :: is, fs)
      | (.error f, c) =>
        let (is, fs) := items rounds (c.skipUntil startsItem)
        (is, f :: fs)

def parse (tokens : List Token) : Parsed :=
  let (is, fs) := items tokens.length (.ofTokens tokens)
  ⟨⟨is⟩, fs⟩

end ClosedSum.Grammar
