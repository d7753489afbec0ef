/-!
# Blank characters

The `White_Space` property of Unicode, and trimming by it.
-/

namespace ClosedSum.Text

def isBlank (c : Char) : Bool :=
  let n := c.toNat
  (0x9 ≤ n && n ≤ 0xd) || n == 0x20 || n == 0x85 || n == 0xa0 || n == 0x1680 ||
    (0x2000 ≤ n && n ≤ 0x200a) || n == 0x2028 || n == 0x2029 || n == 0x202f || n == 0x205f ||
    n == 0x3000

/-- Removes the characters at the end that satisfy `p`. -/
def dropEnd (p : Char → Bool) (cs : List Char) : List Char := (cs.reverse.dropWhile p).reverse

/-- Removes the blanks at both ends. -/
def trim (cs : List Char) : List Char := dropEnd isBlank (cs.dropWhile isBlank)

end ClosedSum.Text
