import Turnstile.Rule

/-!
Facts: formulas known to hold, with the reason.
-/

namespace Turnstile

/-- The number of facts stored before it. -/
abbrev FactId := Nat

inductive Origin where
  | hypothesis
  /-- The antecedent of an implication that was to be proved. -/
  | assumption
  | inference (rule : Rule) (parents : List FactId)
  deriving DecidableEq, Repr

structure Fact where
  formula : Formula
  origin : Origin
  deriving DecidableEq, Repr

namespace Fact

def hypothesis (f : Formula) : Fact := ⟨f.holding, .hypothesis⟩

def assumption (f : Formula) : Fact := ⟨f.holding, .assumption⟩

def inference (f : Formula) (rule : Rule) (parents : List FactId) : Fact :=
  ⟨f, .inference rule parents⟩

def parents (fact : Fact) : List FactId :=
  match fact.origin with
  | .hypothesis | .assumption => []
  | .inference _ parents => parents

def isHypothesis (fact : Fact) : Bool := fact.origin == .hypothesis

end Fact

end Turnstile
