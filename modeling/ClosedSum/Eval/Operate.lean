import ClosedSum.Eval.Fault
import ClosedSum.Integer

/-!
# Operators on values

Arithmetic stays within the integers of the language, and a sum of strings joins them. Values of one
type can be equal; integers and strings have an order.
-/

namespace ClosedSum.Eval

/-- What a comparison says of an order. -/
def holdsOf : BinaryOp → Ordering → Bool
  | .eq, o => o.isEq
  | .ne, o => o.isNe
  | .lt, o => o.isLT
  | .le, o => o.isLE
  | .gt, o => o.isGT
  | .ge, o => o.isGE
  | .add, _ | .sub, _ | .mul, _ => false

def checked (op : BinaryOp) (n : Int) : Except Cause Value :=
  if Integer.fits n then .ok (.int n) else .error (.overflow op)

def operateInts (op : BinaryOp) (a b : Int) : Except Cause Value :=
  match op with
  | .add => checked op (a + b)
  | .sub => checked op (a - b)
  | .mul => checked op (a * b)
  | _ => .ok (.bool (holdsOf op (compare a b)))

def operateStrings (op : BinaryOp) (a b : String) : Except Cause Value :=
  match op with
  | .add => .ok (.str (a ++ b))
  | .sub | .mul => .error (.badOperands op .string .string)
  | _ => .ok (.bool (holdsOf op (compare a b)))

def operate (op : BinaryOp) (left right : Value) : Except Cause Value :=
  match left, right with
  | .int a, .int b => operateInts op a b
  | .str a, .str b => operateStrings op a b
  | _, _ =>
    let bad := .error (.badOperands op left.type right.type)
    if left.type = right.type then
      match op with
      | .eq => .ok (.bool (left.same right))
      | .ne => .ok (.bool !(left.same right))
      | _ => bad
    else bad

end ClosedSum.Eval
