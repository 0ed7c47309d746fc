import Turnstile.Session

/-!
Proofs as numbered lines. A proof lists the hypotheses, the assumptions, and all that the goal was
inferred from, each fact once and after the facts it was inferred from.
-/

namespace Turnstile

/-- Why a line holds; a rule is cited with the numbers of the lines it was applied to. -/
inductive Citation where
  | hypothesis
  | assumption
  | inference (rule : Rule) (lines : List Nat)
  deriving DecidableEq, Repr

/-- Lines are numbered from 1. -/
structure Line where
  number : Nat
  formula : Formula
  citation : Citation
  deriving DecidableEq, Repr

/-- The antecedents assumed on the way, the lines, and the number of the line that holds the
goal. -/
structure Proof where
  assumptions : List Assumption
  lines : List Line
  goal : Nat
  deriving DecidableEq, Repr

def Citation.text : Citation → String
  | .hypothesis => "Hypothesis"
  | .assumption => "Hypothesis (by Deduction Method)"
  | .inference rule lines => rule.title ++ String.join (lines.map fun n => ", " ++ toString n)

namespace Assumption

def write (style : Style) (a : Assumption) : String :=
  "Because this conclusion only matters if " ++ a.assumed.write style ++
    " is true, then we can assume that it is, and place it in our hypotheses. " ++
    "This also means our new conclusion is " ++ a.goal.write style ++ "\n"

end Assumption

def Line.write (style : Style) (l : Line) : String :=
  toString l.number ++ ". " ++ l.formula.write style ++ ", " ++ l.citation.text ++ "\n"

namespace Proof

def write (style : Style) (p : Proof) : String :=
  String.join (p.assumptions.map (·.write style)) ++ String.join (p.lines.map (·.write style))

/-- The line that holds the goal. It may be a hypothesis listed before the assumptions. -/
def conclusion? (p : Proof) : Option Line := p.lines[p.goal - 1]?

end Proof

namespace FactBase

/-- Lists a fact after its parents, unless it is listed already. Parents have smaller numbers, so a
chain of them is no longer than the store is large, and that bound ends the recursion. -/
def list (b : FactBase) : Nat → List FactId → FactId → List FactId
  | 0, listed, _ => listed
  | bound + 1, listed, id =>
    if listed.contains id then listed
    else match b.get? id with
      | none => listed
      | some fact => fact.parents.foldl (b.list bound) listed ++ [id]

/-- The line number of a fact in a listing. -/
def lineNumber (listed : List FactId) (id : FactId) : Nat := listed.idxOf id + 1

def cite (listed : List FactId) : Origin → Citation
  | .hypothesis => .hypothesis
  | .assumption => .assumption
  | .inference rule parents => .inference rule (parents.map (lineNumber listed))

def toLine (b : FactBase) (listed : List FactId) (id : FactId) : Option Line :=
  (b.get? id).map fun fact => ⟨lineNumber listed id, fact.formula, cite listed fact.origin⟩

end FactBase

namespace Session

/-- The facts of the proof of a fact, in the order of their lines: the live hypotheses first, then
the assumptions, then what the goal needs. -/
def listing (s : Session) (goal : FactId) : List FactId :=
  let hypotheses := (s.base.live.filter fun (_, fact) => fact.isHypothesis).map (·.1)
  let assumed := s.assumptions.filterMap (·.fact)
  (hypotheses ++ assumed ++ [goal]).foldl (s.base.list s.base.size) []

def proofOf (s : Session) (goal : FactId) : Proof :=
  let listed := s.listing goal
  ⟨s.assumptions, listed.filterMap (s.base.toLine listed), FactBase.lineNumber listed goal⟩

end Session

end Turnstile
