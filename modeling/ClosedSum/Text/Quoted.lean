import ClosedSum.Text.GraphemeExtend
import ClosedSum.Text.Unprintable

/-!
# Quoted text

Text between quotes, with every character that would not show as itself written as an escape.
-/

namespace ClosedSum.Text

def inRanges (ranges : List (Nat × Nat)) (c : Char) : Bool :=
  ranges.any fun (lo, hi) => lo ≤ c.toNat && c.toNat ≤ hi

/-- Whether a character shows as itself between quotes, wherever it stands. -/
def isVisible (c : Char) : Bool :=
  if c.toNat < 0x7f then 0x20 ≤ c.toNat
  else !(inRanges unprintableRanges c || inRanges graphemeExtendRanges c)

/-- An invisible character is written by its code point in hexadecimal. -/
def escapeChar (quote c : Char) : List Char :=
  if c = '\x00' then ['\\', '0']
  else if c = '\t' then ['\\', 't']
  else if c = '\r' then ['\\', 'r']
  else if c = '\n' then ['\\', 'n']
  else if c = '\\' ∨ c = quote then ['\\', c]
  else if isVisible c then [c]
  else ['\\', 'u', '{'] ++ Nat.toDigits 16 c.toNat ++ ['}']

def quoteWith (quote : Char) (cs : List Char) : List Char :=
  quote :: cs.flatMap (escapeChar quote) ++ [quote]

/-- A string between double quotes. -/
def quoteString (s : String) : String := String.ofList (quoteWith '"' s.toList)

/-- A character between single quotes. -/
def quoteChar (c : Char) : String := String.ofList (quoteWith '\'' [c])

end ClosedSum.Text
