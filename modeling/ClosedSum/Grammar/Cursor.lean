import ClosedSum.Grammar.Fault
import ClosedSum.Source.Ident

/-!
# Cursor over tokens

A cursor stands before the tokens still to be read and remembers the span of the last one read. The
end of the file is never read, so a cursor cannot leave its list.
-/

namespace ClosedSum.Grammar

structure Cursor where
  rest : List Token
  previous : Span := .none
  deriving Repr, Inhabited

namespace Cursor

def ofTokens (tokens : List Token) : Cursor := { rest := tokens }

/-- What stands where there is no token. -/
def missing : Token := ⟨.eof, .none⟩

/-- The token `n` places ahead, or the last one when there are not so many. -/
def peek (c : Cursor) (n : Nat) : Token := c.rest[n]?.getD (c.rest.getLast?.getD missing)

def current (c : Cursor) : Token := c.rest.headD missing

def kind (c : Cursor) : Token.Kind := c.current.kind

def span (c : Cursor) : Span := c.current.span

def atEnd (c : Cursor) : Bool := c.kind = .eof

def check (c : Cursor) (kind : Token.Kind) : Bool := c.kind = kind

/-- Reads the current token, which the end of the file outlasts. -/
def advance (c : Cursor) : Token × Cursor :=
  (c.current, if c.atEnd then c else ⟨c.rest.tail, c.span⟩)

/-- Reads the current token if it is of the given kind. -/
def eat (c : Cursor) (kind : Token.Kind) : Bool × Cursor :=
  if c.check kind then (true, c.advance.2) else (false, c)

def expect (c : Cursor) (kind : Token.Kind) : Except Fault Span × Cursor :=
  if c.check kind then (.ok c.span, c.advance.2)
  else (.error ⟨.unexpected kind.describe c.kind, c.span, none⟩, c)

def expectIdent (c : Cursor) : Except Fault Ident × Cursor :=
  match c.kind with
  | .ident name => (.ok ⟨name, c.span⟩, c.advance.2)
  | found => (.error ⟨.noIdentifier found, c.span, none⟩, c)

/-- Drops the tokens before the first that satisfies `stop`, or before the end of the file. -/
def dropUntil (stop : Token.Kind → Bool) (previous : Span) : List Token → Cursor
  | [] => ⟨[], previous⟩
  | t :: ts => if t.kind = .eof ∨ stop t.kind then ⟨t :: ts, previous⟩ else dropUntil stop t.span ts

/-- Reads the current token and all up to the next that satisfies `stop`. -/
def skipUntil (c : Cursor) (stop : Token.Kind → Bool) : Cursor :=
  let c := c.advance.2
  dropUntil stop c.previous c.rest

end Cursor

end ClosedSum.Grammar
