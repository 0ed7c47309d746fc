import Turnstile.Formula

/-!
Classical truth of formulas under a valuation of the atoms, and the truth table.
-/

namespace Turnstile

abbrev Valuation := String → Bool

def Connective.eval : Connective → Bool → Bool → Bool
  | .and, a, b => a && b
  | .or, a, b => a || b
  | .implies, a, b => !a || b
  | .iff, a, b => a == b

namespace Formula

/-- Stored truths play no part: only the valuation does. -/
def eval (v : Valuation) : Formula → Bool
  | .atom name negated _ => v name != negated
  | .compound op negated l r => op.eval (l.eval v) (r.eval v) != negated

/-- The hypotheses entail the conclusion when no valuation makes them all true and it false. -/
def Entails (hypotheses : List Formula) (conclusion : Formula) : Prop :=
  ∀ v : Valuation, (∀ h ∈ hypotheses, h.eval v = true) → conclusion.eval v = true

/-- The valuation that makes true just the listed atoms. -/
def makingTrue (names : List String) : Valuation := fun name => names.contains name

/-- The valuation of one row of a truth table over the listed atoms: atom `i` is true in the rows
whose number has bit `i` set. -/
def rowValuation (atoms : List String) (row : Nat) : Valuation :=
  fun name => row.testBit (atoms.idxOf name)

/-- The value of the formula in every row, the first row being the one with all atoms false. -/
def table (f : Formula) : List Bool :=
  let atoms := f.atoms
  (List.range (Nat.pow 2 atoms.length)).map fun row => f.eval (rowValuation atoms row)

end Formula

end Turnstile
