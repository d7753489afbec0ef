import ClosedSum.Grammar.Cursor

/-!
# Parsing

A parser moves a cursor and gives a result or a fault. After a fault the cursor stands where the
fault arose, so that reading can go on from there.

Lists and chains are read in at most as many rounds as a bound allows. Every round reads a token, so
the number of tokens left is bound enough.
-/

namespace ClosedSum.Grammar

def Parse (α : Type) : Type := Cursor → Except Fault α × Cursor

namespace Parse

variable {α β : Type}

def bind (p : Parse α) (f : α → Parse β) : Parse β := fun c =>
  match p c with
  | (.ok a, c) => f a c
  | (.error e, c) => (.error e, c)

instance : Monad Parse where
  pure a := fun c => (.ok a, c)
  bind := Parse.bind

/-- Looks at the cursor without moving it. -/
def see (f : Cursor → α) : Parse α := fun c => (.ok (f c), c)

/-- Fails at the current token. -/
def failHere (cause : Token.Kind → Cause) : Parse α := fun c =>
  (.error ⟨cause c.kind, c.span, none⟩, c)

/-- Names what `p` reads in the faults that name nothing yet. -/
def within (context : Context) (p : Parse α) : Parse α := fun c =>
  match p c with
  | (.error f, c) => (.error (f.within context), c)
  | result => result

def next : Parse Token := fun c => (.ok c.advance.1, c.advance.2)

def kind : Parse Token.Kind := see (·.kind)

def span : Parse Span := see (·.span)

def isNext (kind : Token.Kind) : Parse Bool := see (·.check kind)

/-- Whether the token after the next is of the given kind. -/
def isSecond (kind : Token.Kind) : Parse Bool := see fun c => decide ((c.peek 1).kind = kind)

def eat (kind : Token.Kind) : Parse Bool := fun c => (.ok (c.eat kind).1, (c.eat kind).2)

def expect (kind : Token.Kind) : Parse Span := fun c => c.expect kind

def sign (sign : Token.Symbol) : Parse Span := expect (.symbol sign)

def keyword (word : Token.Keyword) : Parse Span := expect (.keyword word)

def ident : Parse Ident := fun c => c.expectIdent

/-- Reads the sign that closes what was opened at `opened`. -/
def close (opened : Span) (closer : Token.Symbol) : Parse Span := do
  if ← see (·.atEnd) then failHere fun _ => .unclosed opened closer
  else sign closer

/-- Items with separators between them, up to a closing sign or the end of the file. A separator may
follow the last item. -/
def separated (separator closer : Token.Symbol) (item : Parse α) : Nat → Parse (List α)
  | 0 => pure []
  | rounds + 1 => do
    if ← see (fun c => c.check (.symbol closer) || c.atEnd) then return []
    let a ← item
    if ← eat (.symbol separator) then
      return a :: (← separated separator closer item rounds)
    return [a]

/-- Separated items and the sign that closes them, with the span of that sign. -/
def closedList (separator closer : Token.Symbol) (opened : Span) (item : Parse α) (bound : Nat) :
    Parse (List α × Span) := do
  let items ← separated separator closer item bound
  return (items, ← close opened closer)

/-- Operands with operators between them, grouped from the left. -/
def chain (op? : Token.Kind → Option β) (combine : β → α → α → α) (operand : Parse α) :
    Nat → α → Parse α
  | 0, a => pure a
  | rounds + 1, a => do
    match op? (← kind) with
    | none => return a
    | some op =>
      let _ ← next
      chain op? combine operand rounds (combine op a (← operand))

end Parse

end ClosedSum.Grammar
