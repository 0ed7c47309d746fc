import Turnstile.Problem
import Turnstile.Tally

/-!
What a search reports while it runs, and computations that report. The value of such a computation
does not depend on what was reported before it.
-/

namespace Turnstile

/-- The bound that a search ran into. -/
inductive Limit where
  | facts (most : Nat)
  | passes (most : Nat)
  deriving DecidableEq, Repr

def Limit.text : Limit → String
  | .facts n => "more than " ++ toString n ++ " facts"
  | .passes n => "more than " ++ toString n ++ " passes"

inductive Level where
  | error | warn | info | debug
  deriving DecidableEq, Repr

namespace Level

def label : Level → String
  | .error => "ERROR"
  | .warn => "WARN"
  | .info => "INFO"
  | .debug => "DEBUG"

def isDetail (level : Level) : Bool := level == .debug

end Level

inductive Event where
  | goalKnown (goal : Formula)
  | stopped (limit : Limit)
  | sized (facts : Nat)
  | updated (facts : Nat)
  | closed (passes : Nat)
  /-- The antecedent of a goal was assumed, and its consequent is the goal now. -/
  | assumed (antecedent goal : Formula)
  /-- A formula was turned away because the known atom has the other sign. -/
  | contradicted (formula known : Formula) (name : String) (truth : Truth)
  | flipped (name : String) (before after : Truth)
  | pruned (formula : Formula)
  | repeated (hypothesis : Formula)
  | finished (tally : Tally)
  | answered (problem : Problem)
  | failed (message : String)
  deriving DecidableEq, Repr

namespace Event

def level : Event → Level
  | .goalKnown _ | .assumed _ _ | .answered _ => .info
  | .stopped _ | .contradicted .. | .flipped .. => .warn
  | .sized _ | .updated _ | .closed _ | .pruned _ | .repeated _ | .finished _ => .debug
  | .failed _ => .error

/-- Times differ from run to run, so a number sign stands for each of them. -/
def text : Event → String
  | .goalKnown goal => "Breaking early because " ++ goal.symbolic ++ " is known"
  | .stopped limit => "Search stopped at " ++ limit.text
  | .sized n => "knowledge base size: " ++ toString n
  | .updated n => "Made " ++ toString n ++ " updates"
  | .closed n => "Closure reached after " ++ toString n ++ " passes"
  | .assumed a g =>
    "Assuming " ++ a.symbolic ++ " by the deduction method, the goal is now " ++ g.symbolic
  | .contradicted f known name truth =>
    "Ignoring " ++ f.symbolic ++ ": it contradicts " ++ known.symbolic ++ ", so " ++ name ++
      " stays " ++ truth.text
  | .flipped name before after =>
    "Truth of " ++ name ++ " flips from " ++ before.text ++ " to " ++ after.text
  | .pruned f => "Pruning trivial implication " ++ f.symbolic
  | .repeated h => "Skipping repeated hypothesis " ++ h.symbolic
  | .finished tally => "Search finished:\n" ++ tally.write fun _ => "#"
  | .answered problem => problem.write
  | .failed message => message

/-- The line for the error stream: the level in a bracket of fixed width, and further lines of the
text indented. -/
def consoleLine (e : Event) : String :=
  let label := e.level.label
  "[" ++ label ++ String.ofList (List.replicate (5 - label.length) ' ') ++ "] " ++
    String.ofList (e.text.toList.flatMap fun c => if c == '\n' then "\n    ".toList else [c]) ++
    "\n"

end Event

/-- A value and the events reported while it was computed, in their order. -/
structure Logged (α : Type) where
  value : α
  events : Array Event
  deriving Repr

namespace Logged

def report (e : Event) : Logged Unit := ⟨(), #[e]⟩

instance : Monad Logged where
  pure a := ⟨a, #[]⟩
  bind x f :=
    let y := f x.value
    ⟨y.value, x.events ++ y.events⟩

theorem ext {α : Type} {x y : Logged α} (hvalue : x.value = y.value)
    (hevents : x.events = y.events) : x = y := by
  cases x
  cases y
  cases hvalue
  cases hevents
  rfl

@[simp] theorem value_pure {α : Type} (a : α) : (pure a : Logged α).value = a := rfl

@[simp] theorem events_pure {α : Type} (a : α) : (pure a : Logged α).events = #[] := rfl

@[simp] theorem value_bind {α β : Type} (x : Logged α) (f : α → Logged β) :
    (x >>= f).value = (f x.value).value := rfl

@[simp] theorem events_bind {α β : Type} (x : Logged α) (f : α → Logged β) :
    (x >>= f).events = x.events ++ (f x.value).events := rfl

@[simp] theorem value_map {α β : Type} (f : α → β) (x : Logged α) : (f <$> x).value = f x.value :=
  rfl

@[simp] theorem events_map {α β : Type} (f : α → β) (x : Logged α) : (f <$> x).events = x.events :=
  Array.append_empty

theorem value_mapM {α β : Type} (f : α → Logged β) (xs : List α) :
    (xs.mapM f).value = xs.map fun x => (f x).value := by
  -- the loop collects what comes before in reverse
  have hloop : ∀ ys : List β,
      (List.mapM.loop f xs ys).value = ys.reverse ++ xs.map fun x => (f x).value := by
    induction xs with
    | nil => simp [List.mapM.loop]
    | cons x xs ih => simp [List.mapM.loop, ih]
  exact hloop []

end Logged

end Turnstile
