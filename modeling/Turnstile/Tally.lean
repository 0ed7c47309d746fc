import Turnstile.Rule

/-!
Counts and times of a search, pass by pass and in sum.
-/

namespace Turnstile

/-- Numbers kept for some of the rules. -/
abbrev PerRule := List (Rule × Nat)

namespace PerRule

def get? (t : PerRule) (rule : Rule) : Option Nat := t.lookup rule

/-- Rule by rule sums, in catalog order, of what either side keeps a number for. -/
def add (s t : PerRule) : PerRule :=
  Rule.catalog.filterMap fun rule =>
    match s.get? rule, t.get? rule with
    | none, none => none
    | m, n => some (rule, m.getD 0 + n.getD 0)

end PerRule

/-- What a search did: passes, facts added, conclusions found for each rule, and times in
microseconds. -/
structure Tally where
  updated : Bool
  passes : Nat
  factsAdded : Nat
  found : PerRule
  searchTime : PerRule
  applyTime : Nat
  deriving DecidableEq, Repr

namespace Tally

def zero : Tally := ⟨false, 0, 0, [], [], 0⟩

def add (s t : Tally) : Tally where
  updated := s.updated || t.updated
  passes := s.passes + t.passes
  factsAdded := s.factsAdded + t.factsAdded
  found := s.found.add t.found
  searchTime := s.searchTime.add t.searchTime
  applyTime := s.applyTime + t.applyTime

/-- One line for each rule that has a number, and one for the whole. -/
def write (time : Nat → String) (t : Tally) : String :=
  let rules := Rule.catalog.filter fun rule =>
    (t.found.get? rule).isSome || (t.searchTime.get? rule).isSome
  String.join (rules.map fun rule =>
    "Rule " ++ rule.title ++ ": search " ++ time ((t.searchTime.get? rule).getD 0) ++
      "s, num matches " ++ toString ((t.found.get? rule).getD 0) ++ "\n") ++
    toString t.passes ++ " passes added " ++ toString t.factsAdded ++ " facts, apply " ++
      time t.applyTime ++ "s\n"

end Tally

end Turnstile
