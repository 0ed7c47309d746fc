import Turnstile.FactBase
import Turnstile.Rule.Conclusions

/-!
A session of search: the facts so far, the antecedents assumed on the way, and the counts. One pass
applies every rule to the facts present when it starts, and only then adds what was found.
-/

namespace Turnstile

/-- Bounds of a search, and whether a pass looks only at premises that include a fact the last pass
did not see. -/
structure Config where
  maxFacts : Nat
  maxPasses : Nat
  seminaive : Bool
  deriving DecidableEq, Repr

def Config.standard : Config := ⟨2048, 128, true⟩

/-- An antecedent that was assumed, the goal left after it, and the fact that holds it, if there is
one. -/
structure Assumption where
  assumed : Formula
  goal : Formula
  fact : Option FactId
  deriving DecidableEq, Repr

structure Session where
  config : Config
  base : FactBase
  /-- The facts from this number on came after the last pass had started. -/
  frontier : FactId
  assumptions : List Assumption
  tally : Tally

/-- A conclusion with the rule and the facts it comes from. -/
structure Match where
  rule : Rule
  formula : Formula
  parents : List FactId
  deriving DecidableEq, Repr

/-- The conclusions of one rule from the given facts, at least one of them fresh. The two premises
of a rule are different facts. -/
def Rule.search (rule : Rule) (facts : List (FactId × Fact)) (fresh : FactId → Bool) : List Match :=
  match rule.shape with
  | .one test =>
    (facts.filter fun (id, fact) => fresh id && test fact.formula).flatMap fun (id, fact) =>
      (rule.apply fact.formula none).map fun f => ⟨rule, f, [id]⟩
  | .two first second =>
    let seconds := facts.filter fun (_, fact) => second fact.formula
    (facts.filter fun (_, fact) => first fact.formula).flatMap fun (i, a) =>
      seconds.flatMap fun (j, b) =>
        if i == j || !(fresh i || fresh j) then []
        else (rule.apply a.formula (some b.formula)).map fun f => ⟨rule, f, [i, j]⟩

namespace FactBase

/-- Adds one conclusion, unless the store has more facts than allowed, and counts it. -/
def addMatch (maxFacts : Nat) (acc : Logged (FactBase × Nat)) (m : Match) :
    Logged (FactBase × Nat) :=
  if acc.value.1.size > maxFacts then acc
  else do
    let (b, added) ← acc
    let (b, id?) ← b.push (.inference m.formula m.rule m.parents)
    return (b, if id?.isSome then added + 1 else added)

/-- Adds conclusions in turn, until the store has one fact more than allowed, and returns how many
were new. -/
def addMatches (maxFacts : Nat) (b : FactBase) (matched : List Match) : Logged (FactBase × Nat) :=
  matched.foldl (addMatch maxFacts) (pure (b, 0))

end FactBase

namespace Session

def start (config : Config) : Session := ⟨config, .empty, 0, [], .zero⟩

/-- Adds a hypothesis. Returns the number of the fact unless its entry is taken. -/
def addHypothesis (s : Session) (h : Formula) : Logged (Session × Option FactId) := do
  let (base, id?) ← s.base.push (.hypothesis h)
  return ({ s with base := base }, id?)

/-- A session with the given hypotheses. Those whose entry is taken are passed over. -/
def ofHypotheses (config : Config) (hypotheses : List Formula) : Logged Session :=
  hypotheses.foldlM (fun s h => do
    let (s, id?) ← s.addHypothesis h
    if id?.isNone then Logged.report (.repeated h)
    return s) (start config)

/-- Whether a pass takes a fact for fresh. -/
def isFresh (s : Session) (id : FactId) : Bool := !s.config.seminaive || s.frontier ≤ id

/-- One pass over the given rules, with its own counts. -/
def passOver (rules : List Rule) (s : Session) : Logged (Session × Tally) := do
  let facts := s.base.live
  let found := rules.map fun rule => (rule, rule.search facts s.isFresh)
  let (base, added) ← s.base.addMatches s.config.maxFacts (found.flatMap (·.2))
  let tally : Tally :=
    { updated := added > 0
      passes := 1
      factsAdded := added
      found := found.map fun (rule, matched) => (rule, matched.length)
      searchTime := rules.map fun rule => (rule, 0)
      applyTime := 0 }
  return ({ s with base := base, frontier := s.base.size, tally := s.tally.add tally }, tally)

def pass (s : Session) : Logged (Session × Tally) := s.passOver Rule.catalog

end Session

end Turnstile
