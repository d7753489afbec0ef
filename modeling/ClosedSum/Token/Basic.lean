import ClosedSum.Diagnostic.Basic
import ClosedSum.Text.Quoted

/-!
# Tokens

The words of the language, each with the span it was read from. A stretch of text that forms no
token stands in the token list as an invalid token, and its fault tells why.
-/

namespace ClosedSum

namespace Token

inductive Keyword where
  | variant | fn | let | if | else | true | false
  deriving DecidableEq, Repr

namespace Keyword

def all : List Keyword := [.variant, .fn, .let, .if, .else, .true, .false]

def text : Keyword → String
  | .variant => "variant"
  | .fn => "fn"
  | .let => "let"
  | .if => "if"
  | .else => "else"
  | .true => "true"
  | .false => "false"

end Keyword

inductive Symbol where
  | leftParen | rightParen | leftBrace | rightBrace | comma | semicolon
  | assign | arrow | bang | underscore
  | equal | notEqual | less | lessEqual | greater | greaterEqual | plus | minus | star
  deriving DecidableEq, Repr

namespace Symbol

/-- The symbols that a scan looks for, a longer one before its own beginning. The underscore is read
as a word. -/
def scanned : List Symbol := [
  .arrow, .equal, .notEqual, .lessEqual, .greaterEqual,
  .leftParen, .rightParen, .leftBrace, .rightBrace, .comma, .semicolon,
  .assign, .bang, .less, .greater, .plus, .minus, .star]

def text : Symbol → String
  | .leftParen => "("
  | .rightParen => ")"
  | .leftBrace => "\x7b"
  | .rightBrace => "\x7d"
  | .comma => ","
  | .semicolon => ";"
  | .assign => "="
  | .arrow => "=>"
  | .bang => "!"
  | .underscore => "_"
  | .equal => "=="
  | .notEqual => "!="
  | .less => "<"
  | .lessEqual => "<="
  | .greater => ">"
  | .greaterEqual => ">="
  | .plus => "+"
  | .minus => "-"
  | .star => "*"

end Symbol

inductive Kind where
  | int (value : Int)
  | str (text : String)
  | attr (text : String)
  | ident (name : String)
  | keyword (word : Keyword)
  | symbol (sign : Symbol)
  | invalid
  | eof
  deriving DecidableEq, Repr, Inhabited

namespace Kind

/-- How a message names the kind. -/
def describe : Kind → String
  | .int _ => "integer literal"
  | .str _ => "string literal"
  | .attr _ => "attribute"
  | .ident _ => "identifier"
  | .keyword word => s!"`{word.text}`"
  | .symbol sign => s!"`{sign.text}`"
  | .invalid => "invalid token"
  | .eof => "end of file"

def startsExpr : Kind → Bool
  | .int _ | .str _ | .ident _ => true
  | .keyword word => (word matches .true | .false | .if)
  | .symbol sign => (sign matches .leftParen | .leftBrace | .minus)
  | _ => false

end Kind

end Token

structure Token where
  kind : Token.Kind
  span : Span
  deriving DecidableEq, Repr, Inhabited

namespace Token

/-- Why a stretch of text forms no token. -/
inductive Cause where
  | unterminatedString
  | invalidCharacter (c : Char)
  | integerOutOfRange
  | unterminatedAttribute
  deriving DecidableEq, Repr

structure Fault where
  cause : Cause
  span : Span
  deriving DecidableEq, Repr

def Fault.diagnostic (f : Fault) : Diagnostic :=
  match f.cause with
  | .unterminatedString =>
    let d : Diagnostic := { code := .unterminatedString, message := "unterminated string literal" }
    (d.label f.span "string starts here").suggest "add a closing `\"`"
  | .invalidCharacter c =>
    let d : Diagnostic :=
      { code := .invalidCharacter, message := s!"invalid character {Text.quoteChar c}" }
    d.label f.span "not valid here"
  | .integerOutOfRange =>
    let d : Diagnostic := { code := .integerOutOfRange, message := "integer literal is too large" }
    d.label f.span "does not fit in a 64-bit signed integer"
  | .unterminatedAttribute =>
    let d : Diagnostic := { code := .unterminatedAttribute, message := "unterminated attribute" }
    (d.label f.span "attribute opened here").suggest "close the attribute with `]`"

end Token

end ClosedSum
