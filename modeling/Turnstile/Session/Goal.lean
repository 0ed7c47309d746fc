import Turnstile.Proof
import Turnstile.Session.Saturation

/-!
Proving a goal. Where saturation does not find an implication, its antecedent is assumed and its
consequent becomes the goal.
-/

namespace Turnstile

inductive Outcome where
  | proved (proof : Proof)
  | notDerivable
  | limitExceeded (limit : Limit)
  deriving DecidableEq, Repr

namespace Outcome

def isProved : Outcome → Bool
  | .proved _ => true
  | _ => false

def proof? : Outcome → Option Proof
  | .proved proof => some proof
  | _ => none

end Outcome

namespace Session

/-- Assumes an antecedent. If its entry is taken, the assumption is held by the fact that is like
it, and by none if there is no such fact. -/
def assume (s : Session) (antecedent goal : Formula) : Logged Session := do
  Logged.report (.assumed antecedent goal)
  let (base, id?) ← s.base.push (.assumption antecedent)
  let fact := id?.orElse fun _ => base.find? antecedent
  return { s with base := base, assumptions := s.assumptions ++ [⟨antecedent, goal, fact⟩] }

def prune (s : Session) : Logged Session := do
  let (base, _) ← s.base.prune
  return { s with base := base }

/-- One attempt at a goal: saturates, prunes and looks. There is no outcome yet when the search
closed without the goal, or the goal was pruned. -/
def attempt (s : Session) (goal : Formula) : Logged (Session × Option Outcome) := do
  let (s, ending) ← s.saturate goal
  let s ← s.prune
  match s.base.find? goal, ending with
  | some id, _ => return (s, some (.proved (s.proofOf id)))
  | none, .limitExceeded limit => return (s, some (.limitExceeded limit))
  | none, _ => return (s, none)

/-- Searches for a goal, going on with the consequent of an implication that was not found. -/
def prove (s : Session) : Formula → Logged (Session × Outcome)
  | .imp antecedent consequent => do
    let (s, outcome?) ← s.attempt (.imp antecedent consequent)
    match outcome? with
    | some outcome => return (s, outcome)
    | none => do
      let s ← s.assume antecedent consequent
      s.prove consequent
  | goal => do
    let (s, outcome?) ← s.attempt goal
    return (s, outcome?.getD .notDerivable)

end Session

/-- Searches for a conclusion from hypotheses in a session of its own. -/
def solve (config : Config) (hypotheses : List Formula) (conclusion : Formula) :
    Logged (Session × Outcome) := do
  let s ← Session.ofHypotheses config hypotheses
  let (s, outcome) ← s.prove conclusion
  Logged.report (.finished s.tally)
  return (s, outcome)

def Problem.solve (config : Config) (p : Problem) : Logged (Session × Outcome) :=
  Turnstile.solve config p.hypotheses p.conclusion

end Turnstile
