import Turnstile.Session.Goal

/-!
A session driven by commands, one after another.
-/

namespace Turnstile

inductive Command where
  | add (hypothesis : Formula)
  | saturate (goal : Formula)
  | prove (goal : Formula)
  deriving DecidableEq, Repr

/-- What a command gives back. -/
inductive Reply where
  | added (id? : Option FactId)
  | saturated (ending : Ending)
  | tried (outcome : Outcome)
  deriving DecidableEq, Repr

namespace Session

def perform (s : Session) : Command → Logged (Session × Reply)
  | .add hypothesis => do
    let (s, id?) ← s.addHypothesis hypothesis
    return (s, .added id?)
  | .saturate goal => do
    let (s, ending) ← s.saturate goal
    return (s, .saturated ending)
  | .prove goal => do
    let (s, outcome) ← s.prove goal
    return (s, .tried outcome)

/-- Performs commands in turn and collects the replies. -/
def performAll (s : Session) : List Command → Logged (Session × List Reply)
  | [] => return (s, [])
  | c :: cs => do
    let (s, reply) ← s.perform c
    let (s, replies) ← s.performAll cs
    return (s, reply :: replies)

end Session

end Turnstile
