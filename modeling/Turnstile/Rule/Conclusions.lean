import Turnstile.Rule

/-!
What each rule concludes from its premises, in the order in which the conclusions are added to a
fact base. A conclusion that may be an atom is given as one that holds.
-/

namespace Turnstile

namespace Inference

/-- From `A` and `A → B` to `B`. An atom counts only once its truth is known. -/
def modusPonens (fact : Formula) : Formula → List Formula
  | .imp a b =>
    if (fact.atomName?.isNone || fact.truth.isSome) && a.alike fact then [b.holding] else []
  | _ => []

/-- Whether a fact refutes a consequent: an atom by its known truth, and any other formula by being
the negation. -/
def refutes : Formula → Formula → Bool
  | .atom name _ truth, .atom name' negated' _ =>
    name == name' && truth.isSome && truth != some (!negated')
  | fact, consequent => fact.alike consequent.negate

/-- From `¬B` and `A → B` to `¬A`. -/
def modusTollens (fact : Formula) : Formula → List Formula
  | .imp a b => if refutes fact b then [a.negate.holding] else []
  | _ => []

/-- From `A → B` and `B → C` to `A → C`, or all three negated; but never to `X → ¬X`. -/
def hypotheticalSyllogism : Formula → Formula → List Formula
  | .compound .implies negated a b, .compound .implies negated' b' c =>
    if negated == negated' && b.alike b' && !c.alike a.negate then
      [.compound .implies negated a c]
    else []
  | _, _ => []

/-- From `A → B` to `¬A ∨ B`, and from `A ∨ B` to `¬A → B` and `¬B → A`. -/
def conditionalDisjunction : Formula → List Formula
  | .imp a b => [.disj a.negate b]
  | .disj a b => [.imp a.negate b, .imp b.negate a]
  | _ => []

/-- From `A → B` to `¬B → ¬A`. -/
def contraposition : Formula → List Formula
  | .imp a b => [.imp b.negate a.negate]
  | _ => []

/-- From `(A ∧ B) → C` to `A → (B → C)` and `B → (A → C)`. -/
def exportation : Formula → List Formula
  | .imp (.conj a b) c => [.imp a (.imp b c), .imp b (.imp a c)]
  | _ => []

/-- From `A ∧ B` to `A` and `B`. -/
def conjunctionElimination : Formula → List Formula
  | .conj a b => [a.holding, b.holding]
  | _ => []

/-- From two different atoms, each as it stands, to their conjunction. -/
def conjunctionIntroduction : Formula → Formula → List Formula
  | .atom name negated truth, .atom name' negated' truth' =>
    if name == name' then []
    else [.conj (.atom name negated truth) (.atom name' negated' truth')]
  | _, _ => []

/-- A conjunction turns into the disjunction of the negated operands, negated the other way, and a
disjunction likewise. -/
def deMorgan : Formula → List Formula
  | .compound .and negated a b => [.compound .or (!negated) a.negate b.negate]
  | .compound .or negated a b => [.compound .and (!negated) a.negate b.negate]
  | _ => []

/-- From `(A ∧ B) ∨ C` to `(A ∨ C) ∧ (B ∨ C)`. -/
def distributeLeft : Formula → Formula → List Formula
  | .conj a b, c => [.conj (.disj a c) (.disj b c)]
  | _, _ => []

/-- From `C ∨ (A ∧ B)` to `(C ∨ A) ∧ (C ∨ B)`. -/
def distributeRight : Formula → Formula → List Formula
  | c, .conj a b => [.conj (.disj c a) (.disj c b)]
  | _, _ => []

/-- The formulas, less those that are like an earlier one. -/
def distinct (formulas : List Formula) : List Formula :=
  formulas.foldl (fun kept f => if kept.any (·.alike f) then kept else kept ++ [f]) []

/-- From `(X ∨ A) ∧ (X ∨ B)` to `(A ∧ B) ∨ X`, for every choice of the shared operand. -/
def factor : Formula → Formula → List Formula
  | .disj a b, .disj c d =>
    distinct ([(a, b), (b, a)].flatMap fun (shared, rest) =>
      [(c, d), (d, c)].filterMap fun (shared', rest') =>
        if shared.alike shared' then some (.disj (.conj rest rest') shared) else none)
  | _, _ => []

def distribution : Formula → List Formula
  | .disj a b => distributeLeft a b ++ distributeRight a b
  | .conj a b => factor a b
  | _ => []

/-- From `A → C` and `¬A → C` to `C`. -/
def proofByCases : Formula → Formula → List Formula
  | .imp a c, .imp a' c' => if c.alike c' && a.alike a'.negate then [c.holding] else []
  | _, _ => []

/-- From `A ∨ A` to `A`. -/
def selfReference : Formula → List Formula
  | .disj a b => if a.alike b then [a.holding] else []
  | _ => []

/-- From `A ↔ B` to `A → B` and `B → A`. -/
def biconditionalElimination : Formula → List Formula
  | .equiv a b => [.imp a b, .imp b a]
  | _ => []

/-- From `A → B` and `B → A` to `A ↔ B`, when the two differ. -/
def biconditionalIntroduction : Formula → Formula → List Formula
  | .imp a b, .imp b' a' =>
    if a.alike a' && b.alike b' && !a.alike b then [.equiv a b] else []
  | _, _ => []

end Inference

namespace Rule

/-- The conclusions from one premise or two, without a look at the shapes. A rule of one premise has
no use for a second, and one of two concludes nothing without it. -/
def conclude : Rule → Formula → Option Formula → List Formula
  | .modusPonens, f, some g => Inference.modusPonens f g
  | .modusTollens, f, some g => Inference.modusTollens f g
  | .hypotheticalSyllogism, f, some g => Inference.hypotheticalSyllogism f g
  | .conditionalDisjunction, f, _ => Inference.conditionalDisjunction f
  | .contraposition, f, _ => Inference.contraposition f
  | .exportation, f, _ => Inference.exportation f
  | .conjunctionElimination, f, _ => Inference.conjunctionElimination f
  | .conjunctionIntroduction, f, some g => Inference.conjunctionIntroduction f g
  | .deMorgan, f, _ => Inference.deMorgan f
  | .distribution, f, _ => Inference.distribution f
  | .proofByCases, f, some g => Inference.proofByCases f g
  | .selfReference, f, _ => Inference.selfReference f
  | .biconditionalElimination, f, _ => Inference.biconditionalElimination f
  | .biconditionalIntroduction, f, some g => Inference.biconditionalIntroduction f g
  | _, _, none => []

/-- The conclusions from premises of the rule's number and shape. -/
def apply (rule : Rule) (first : Formula) (second : Option Formula) : List Formula :=
  if rule.shape.fits first second then rule.conclude first second else []

end Rule

end Turnstile
