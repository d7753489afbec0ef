import ClosedSum.Token.Basic

/-!
# Grammar faults

What a token list has where the grammar asks for something else, and the construct being read there.
-/

namespace ClosedSum.Grammar

inductive Context where
  | variant | case | function | expression | ifExpression | block | matchUse | clause | call
  deriving DecidableEq, Repr

def Context.describe : Context → String
  | .variant => "a variant declaration"
  | .case => "a case declaration"
  | .function => "a function definition"
  | .expression => "an expression"
  | .ifExpression => "an if expression"
  | .block => "a block"
  | .matchUse => "a match expression"
  | .clause => "a match clause"
  | .call => "a call"

inductive Cause where
  | unexpected (expected : String) (found : Token.Kind)
  | noExpression (found : Token.Kind)
  | unclosed (opened : Span) (close : Token.Symbol)
  | noIdentifier (found : Token.Kind)
  | badPattern (found : Token.Kind)
  deriving DecidableEq, Repr

structure Fault where
  cause : Cause
  span : Span
  context : Option Context := none
  deriving DecidableEq, Repr

namespace Fault

/-- Names the construct being read, unless a construct inside it is named already. -/
def within (f : Fault) (context : Context) : Fault :=
  { f with context := f.context.or (some context) }

def code (f : Fault) : Code :=
  match f.cause with
  | .unexpected .. => .unexpectedToken
  | .noExpression _ => .expectedExpression
  | .unclosed .. => .unclosedDelimiter
  | .noIdentifier _ => .expectedIdentifier
  | .badPattern _ => .invalidPattern

def diagnostic (f : Fault) : Diagnostic :=
  let report (message label : String) : Diagnostic :=
    ({ code := f.code, message } : Diagnostic).label f.span label
  let d := match f.cause with
    | .unexpected expected found =>
      report s!"expected {expected}, found {found.describe}" s!"expected {expected}"
    | .noExpression found =>
      report s!"expected expression, found {found.describe}" "expected expression here"
    | .unclosed opened close =>
      (report s!"unclosed delimiter, expected `{close.text}`" s!"expected `{close.text}`").related
        opened "delimiter opened here"
    | .noIdentifier found =>
      report s!"expected identifier, found {found.describe}" "expected identifier"
    | .badPattern found =>
      let d := report s!"expected a clause pattern, found {found.describe}" "invalid clause pattern"
      d.suggest "write `label(a, b) => ...`, `label rest => ...` or `_ => ...`"
  match f.context with
  | some context => d.note s!"while parsing {context.describe}"
  | none => d

end Fault

end ClosedSum.Grammar
