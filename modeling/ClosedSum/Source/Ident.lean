import ClosedSum.Source.Span

/-!
# Identifiers

A name with the place where it was written.
-/

namespace ClosedSum

structure Ident where
  name : String
  span : Span
  deriving DecidableEq, Repr, Inhabited

end ClosedSum
