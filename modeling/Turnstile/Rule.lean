import Turnstile.Formula

/-!
The catalog of inference rules: their names, and for each the number of its premises with a quick
test of their shape.
-/

namespace Turnstile

inductive Rule where
  | modusPonens
  | modusTollens
  | hypotheticalSyllogism
  | conditionalDisjunction
  | contraposition
  | exportation
  | conjunctionElimination
  | conjunctionIntroduction
  | deMorgan
  | distribution
  | proofByCases
  | selfReference
  | biconditionalElimination
  | biconditionalIntroduction
  deriving DecidableEq, Repr

namespace Formula

def isImp : Formula → Bool
  | .imp _ _ => true
  | _ => false

/-- An implication, negated or not. -/
def isAnyImp : Formula → Bool
  | .compound .implies _ _ _ => true
  | _ => false

def isConj : Formula → Bool
  | .conj _ _ => true
  | _ => false

def isDisj : Formula → Bool
  | .disj _ _ => true
  | _ => false

def isEquiv : Formula → Bool
  | .equiv _ _ => true
  | _ => false

/-- A conjunction or disjunction, negated or not. -/
def isAnyJunction : Formula → Bool
  | .compound op _ _ _ => op.commutes
  | .atom .. => false

/-- An implication from a conjunction. -/
def isExportable : Formula → Bool
  | .imp a _ => a.isConj
  | _ => false

/-- An atom whose truth is known. -/
def isKnownAtom : Formula → Bool
  | .atom _ _ truth => truth.isSome
  | .compound .. => false

end Formula

/-- What the premises of a rule have to look like. -/
inductive Shape where
  | one (test : Formula → Bool)
  | two (first second : Formula → Bool)

def Shape.arity : Shape → Nat
  | .one _ => 1
  | .two _ _ => 2

/-- Whether premises of the right number pass the tests. -/
def Shape.fits : Shape → Formula → Option Formula → Bool
  | .one test, f, none => test f
  | .two first second, f, some g => first f && second g
  | _, _, _ => false

namespace Rule

/-- Every rule, in the order a pass goes through them. -/
def catalog : List Rule :=
  [.modusPonens, .modusTollens, .hypotheticalSyllogism, .conditionalDisjunction, .contraposition,
    .exportation, .conjunctionElimination, .conjunctionIntroduction, .deMorgan, .distribution,
    .proofByCases, .selfReference, .biconditionalElimination, .biconditionalIntroduction]

/-- The name cited in proofs. -/
def title : Rule → String
  | .modusPonens => "Modus Ponens"
  | .modusTollens => "Modus Tollens"
  | .hypotheticalSyllogism => "Hypothetical Syllogism"
  | .conditionalDisjunction => "Conditional Disjunction"
  | .contraposition => "Contraposition"
  | .exportation => "Exportation"
  | .conjunctionElimination => "Conjunction Elimination"
  | .conjunctionIntroduction => "Conjunction Introduction"
  | .deMorgan => "De Morgan's Laws"
  | .distribution => "Distribution"
  | .proofByCases => "Proof by Cases"
  | .selfReference => "Self-Reference"
  | .biconditionalElimination => "Biconditional Elimination"
  | .biconditionalIntroduction => "Biconditional Introduction"

/-- The name as one word. -/
def label : Rule → String
  | .modusPonens => "ModusPonens"
  | .modusTollens => "ModusTollens"
  | .hypotheticalSyllogism => "HypotheticalSyllogism"
  | .conditionalDisjunction => "ConditionalDisjunction"
  | .contraposition => "Contraposition"
  | .exportation => "Exportation"
  | .conjunctionElimination => "ConjunctionElimination"
  | .conjunctionIntroduction => "ConjunctionIntroduction"
  | .deMorgan => "DeMorgan"
  | .distribution => "Distribution"
  | .proofByCases => "ProofByCases"
  | .selfReference => "SelfReference"
  | .biconditionalElimination => "BiconditionalElimination"
  | .biconditionalIntroduction => "BiconditionalIntroduction"

def ofLabel? (label : String) : Option Rule := catalog.find? fun rule => rule.label == label

def shape : Rule → Shape
  | .modusPonens => .two (fun _ => true) Formula.isImp
  | .modusTollens => .two (fun _ => true) Formula.isImp
  | .hypotheticalSyllogism => .two Formula.isAnyImp Formula.isAnyImp
  | .conditionalDisjunction => .one fun f => f.isImp || f.isDisj
  | .contraposition => .one Formula.isImp
  | .exportation => .one Formula.isExportable
  | .conjunctionElimination => .one Formula.isConj
  | .conjunctionIntroduction => .two Formula.isKnownAtom Formula.isKnownAtom
  | .deMorgan => .one Formula.isAnyJunction
  | .distribution => .one fun f => f.isDisj || f.isConj
  | .proofByCases => .two Formula.isImp Formula.isImp
  | .selfReference => .one Formula.isDisj
  | .biconditionalElimination => .one Formula.isEquiv
  | .biconditionalIntroduction => .two Formula.isImp Formula.isImp

def arity (rule : Rule) : Nat := rule.shape.arity

/-- The catalog entry of a rule in one line. -/
def signature (rule : Rule) : String :=
  "Rule \x7b name: " ++ rule.label ++ ", arity: " ++ toString rule.arity ++ " \x7d"

end Rule

end Turnstile
