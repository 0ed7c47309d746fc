import Turnstile.Session

/-!
Saturation: pass after pass until the goal is known, nothing new is found, or a bound is reached.
-/

namespace Turnstile

/-- How a saturation ended. -/
inductive Ending where
  | goalFound (id : FactId)
  /-- The last pass added nothing. -/
  | closed
  | limitExceeded (limit : Limit)
  deriving DecidableEq, Repr

namespace Session

def stopAt (s : Session) (limit : Limit) : Logged (Session × Ending) := do
  Logged.report (.stopped limit)
  return (s, .limitExceeded limit)

/-- What ends the search before a pass, other than the bound on passes. -/
def settled? (s : Session) (goal : Formula) : Option (Logged (Session × Ending)) :=
  match s.base.find? goal with
  | some id => some do
    Logged.report (.goalKnown goal)
    return (s, .goalFound id)
  | none =>
    if s.base.size > s.config.maxFacts then some (s.stopAt (.facts s.config.maxFacts)) else none

/-- Saturation with a number of passes left. -/
def saturateWithin (goal : Formula) : Nat → Session → Logged (Session × Ending)
  | 0, s => (s.settled? goal).getD (s.stopAt (.passes s.config.maxPasses))
  | left + 1, s =>
    match s.settled? goal with
    | some ended => ended
    | none => do
      let (s, pass) ← s.pass
      Logged.report (.sized s.base.size)
      Logged.report (.updated pass.factsAdded)
      if pass.updated then saturateWithin goal left s
      else do
        Logged.report (.closed s.tally.passes)
        return (s, .closed)

/-- The bound on passes counts all passes of the session. -/
def saturate (s : Session) (goal : Formula) : Logged (Session × Ending) :=
  s.saturateWithin goal (s.config.maxPasses - s.tally.passes)

end Session

end Turnstile
