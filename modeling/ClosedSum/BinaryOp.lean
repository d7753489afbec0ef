/-!
# Binary operators

The operators of the language between two operands.
-/

namespace ClosedSum

inductive BinaryOp where
  | add | sub | mul | eq | ne | lt | le | gt | ge
  deriving DecidableEq, Repr, Inhabited

namespace BinaryOp

def all : List BinaryOp := [.add, .sub, .mul, .eq, .ne, .lt, .le, .gt, .ge]

def symbol : BinaryOp → String
  | .add => "+"
  | .sub => "-"
  | .mul => "*"
  | .eq => "=="
  | .ne => "!="
  | .lt => "<"
  | .le => "<="
  | .gt => ">"
  | .ge => ">="

end BinaryOp

end ClosedSum
