import ClosedSum.Text.CaseTable

/-!
# Letter case

Case of a character by the Unicode tables, each character on its own: no rule looks at its
neighbours. A mapping may give several characters.
-/

namespace ClosedSum.Text

def inRun (n first last stride : Nat) : Bool :=
  first ≤ n && n ≤ last && (n - first) % stride == 0

def isUpper (c : Char) : Bool := uppercaseRuns.any fun (lo, hi, step) => inRun c.toNat lo hi step

def isLower (c : Char) : Bool := lowercaseRuns.any fun (lo, hi, step) => inRun c.toNat lo hi step

/-- The image of a character: its expansion, else its run's shift, else itself. -/
def mapCase (runs : List (Nat × Nat × Nat × Int)) (expansions : List (Nat × List Nat)) (c : Char) :
    List Char :=
  match expansions.lookup c.toNat with
  | some image => image.map Char.ofNat
  | none =>
    match runs.find? fun (lo, hi, step, _) => inRun c.toNat lo hi step with
    | some (_, _, _, shift) => [Char.ofNat (c.toNat + shift).toNat]
    | none => [c]

def toLower (c : Char) : List Char := mapCase lowerRuns lowerExpansions c

def toUpper (c : Char) : List Char := mapCase upperRuns upperExpansions c

end ClosedSum.Text
