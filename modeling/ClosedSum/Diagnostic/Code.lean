import ClosedSum.Text.Blank
import ClosedSum.Text.Case

/-!
# Codes

Every diagnostic has a code. Its first digit tells the phase that reports it: 0 tokens, 1 grammar,
3 variants and matches, 6 evaluation, 9 the compiler itself. A code with a `W` is advice.
-/

namespace ClosedSum

inductive Code where
  | unterminatedString | invalidCharacter | integerOutOfRange | unterminatedAttribute
  | unexpectedToken | expectedExpression | unclosedDelimiter | expectedIdentifier | invalidPattern
  | emptyMatch | defaultNotLast | repeatedClause | unknownCase
  | duplicateCase | duplicateField | duplicateGlobal | unknownOperator
  | matchFailure | undefinedVariable | wrongArity | notCallable | typeMismatch
  | wrongCase | stackOverflow | noMain | integerOverflow
  | internal | tooManyErrors
  | nonExhaustive | redundantDefault | clauseArity | unusedParameter
  deriving DecidableEq, Repr, Inhabited

namespace Code

def all : List Code := [
  .unterminatedString, .invalidCharacter, .integerOutOfRange, .unterminatedAttribute,
  .unexpectedToken, .expectedExpression, .unclosedDelimiter, .expectedIdentifier, .invalidPattern,
  .emptyMatch, .defaultNotLast, .repeatedClause, .unknownCase,
  .duplicateCase, .duplicateField, .duplicateGlobal, .unknownOperator,
  .matchFailure, .undefinedVariable, .wrongArity, .notCallable, .typeMismatch,
  .wrongCase, .stackOverflow, .noMain, .integerOverflow,
  .internal, .tooManyErrors,
  .nonExhaustive, .redundantDefault, .clauseArity, .unusedParameter]

def id : Code → String
  | .unterminatedString => "E0001"
  | .invalidCharacter => "E0002"
  | .integerOutOfRange => "E0003"
  | .unterminatedAttribute => "E0004"
  | .unexpectedToken => "E1001"
  | .expectedExpression => "E1002"
  | .unclosedDelimiter => "E1003"
  | .expectedIdentifier => "E1004"
  | .invalidPattern => "E1005"
  | .emptyMatch => "E3001"
  | .defaultNotLast => "E3002"
  | .repeatedClause => "E3003"
  | .unknownCase => "E3004"
  | .duplicateCase => "E3005"
  | .duplicateField => "E3006"
  | .duplicateGlobal => "E3007"
  | .unknownOperator => "E3008"
  | .matchFailure => "E6001"
  | .undefinedVariable => "E6002"
  | .wrongArity => "E6003"
  | .notCallable => "E6004"
  | .typeMismatch => "E6005"
  | .wrongCase => "E6006"
  | .stackOverflow => "E6007"
  | .noMain => "E6008"
  | .integerOverflow => "E6009"
  | .internal => "E9001"
  | .tooManyErrors => "E9002"
  | .nonExhaustive => "W3001"
  | .redundantDefault => "W3002"
  | .clauseArity => "W3003"
  | .unusedParameter => "W3004"

/-- What the code says of a program, in a few words. -/
def description : Code → String
  | .unterminatedString => "unterminated string literal"
  | .invalidCharacter => "invalid character in source"
  | .integerOutOfRange => "integer literal out of range"
  | .unterminatedAttribute => "unterminated attribute"
  | .unexpectedToken => "unexpected token"
  | .expectedExpression => "expected expression"
  | .unclosedDelimiter => "unclosed delimiter"
  | .expectedIdentifier => "expected identifier"
  | .invalidPattern => "invalid match clause pattern"
  | .emptyMatch => "match use has no clauses"
  | .defaultNotLast => "default clause must be last"
  | .repeatedClause => "case handled by more than one clause"
  | .unknownCase => "no such case in variant"
  | .duplicateCase => "duplicate case label in variant"
  | .duplicateField => "duplicate field in case"
  | .duplicateGlobal => "name defined more than once"
  | .unknownOperator => "unknown match operator"
  | .matchFailure => "match failure"
  | .undefinedVariable => "undefined variable"
  | .wrongArity => "wrong number of arguments"
  | .notCallable => "value is not callable"
  | .typeMismatch => "type mismatch"
  | .wrongCase => "accessor applied to the wrong case"
  | .stackOverflow => "maximum call depth exceeded"
  | .noMain => "no `main` function"
  | .integerOverflow => "integer overflow"
  | .internal => "internal generator error"
  | .tooManyErrors => "too many errors"
  | .nonExhaustive => "non-exhaustive match"
  | .redundantDefault => "redundant default clause"
  | .clauseArity => "clause parameter count differs from field count"
  | .unusedParameter => "unused clause parameter"

def isWarning : Code → Bool
  | .nonExhaustive | .redundantDefault | .clauseArity | .unusedParameter => true
  | _ => false

theorem mem_all (c : Code) : c ∈ all := by cases c <;> decide

/-- Reads a code in either case, with blanks around it. -/
def parse? (text : String) : Option Code :=
  let upper := String.ofList ((Text.trim text.toList).flatMap Text.toUpper)
  all.find? (·.id = upper)

end Code

end ClosedSum
