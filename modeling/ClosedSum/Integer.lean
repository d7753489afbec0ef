/-!
# Integers of the language

The integers of the language are those of 64 bits with a sign.
-/

namespace ClosedSum.Integer

def least : Int := -Int.pow 2 63

def greatest : Int := Int.pow 2 63 - 1

def fits (n : Int) : Bool := least ≤ n && n ≤ greatest

/-- The value of a row of decimal digits. -/
def ofDigits (cs : List Char) : Nat := cs.foldl (fun n c => 10 * n + (c.toNat - '0'.toNat)) 0

end ClosedSum.Integer
