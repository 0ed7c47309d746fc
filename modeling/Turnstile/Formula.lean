/-!
Propositional formulas. Every node carries its own negation flag, so a negated formula has the
same shape as the formula it negates, and negating twice gives it back. An atom also stores what
is known of its truth; the comparisons below ignore that.
-/

namespace Turnstile

inductive Connective where
  | and | or | implies | iff
  deriving DecidableEq, Repr

/-- Whether the order of the two operands is immaterial. -/
def Connective.commutes : Connective → Bool
  | .and | .or => true
  | .implies | .iff => false

/-- What is known of an atom: its value, or nothing. -/
abbrev Truth := Option Bool

def Truth.text : Truth → String
  | some true => "true"
  | some false => "false"
  | none => "unknown"

inductive Formula where
  | atom (name : String) (negated : Bool) (truth : Truth)
  | compound (op : Connective) (negated : Bool) (left right : Formula)
  deriving DecidableEq, Repr

namespace Formula

/-- The plain atom: not negated, nothing known of it. -/
def var (name : String) : Formula := .atom name false none

@[match_pattern] def conj (left right : Formula) : Formula := .compound .and false left right

@[match_pattern] def disj (left right : Formula) : Formula := .compound .or false left right

@[match_pattern] def imp (left right : Formula) : Formula := .compound .implies false left right

@[match_pattern] def equiv (left right : Formula) : Formula := .compound .iff false left right

def isNegated : Formula → Bool
  | .atom _ negated _ => negated
  | .compound _ negated _ _ => negated

def negate : Formula → Formula
  | .atom name negated truth => .atom name (!negated) truth
  | .compound op negated left right => .compound op (!negated) left right

@[simp] theorem negate_negate (f : Formula) : f.negate.negate = f := by
  cases f <;> simp [negate]

def atomName? : Formula → Option String
  | .atom name _ _ => some name
  | .compound .. => none

/-- The stored truth of an atom; a compound formula stores none. -/
def truth : Formula → Truth
  | .atom _ _ truth => truth
  | .compound .. => none

def withTruth (truth : Truth) : Formula → Formula
  | .atom name negated _ => .atom name negated truth
  | f => f

/-- The formula as one that holds: a plain atom is then true and a negated one false. -/
def holding : Formula → Formula
  | .atom name negated _ => .atom name negated (some (!negated))
  | f => f

@[simp] theorem holding_holding (f : Formula) : f.holding.holding = f.holding := by
  cases f <;> rfl

/-- The left operand, or the atom itself. -/
def left : Formula → Formula
  | .compound _ _ l _ => l
  | f => f

/-- The right operand, or the atom itself. -/
def right : Formula → Formula
  | .compound _ _ _ r => r
  | f => f

/-- The same formula up to the order of the operands of conjunctions and disjunctions, at every
depth. Stored truths do not count. -/
def alike : Formula → Formula → Bool
  | .atom name negated _, .atom name' negated' _ => name == name' && negated == negated'
  | .compound op negated l r, .compound op' negated' l' r' =>
    op == op' && negated == negated' &&
      ((alike l l' && alike r r') || (op.commutes && alike l r' && alike r l'))
  | _, _ => false

@[simp] theorem alike_refl (f : Formula) : f.alike f = true := by
  induction f with
  | atom => simp [alike]
  | compound op negated l r ihl ihr => simp [alike, ihl, ihr]

/-- Whether a fact base keeps only one of the two: atoms of one name share their entry whatever
their signs, and all other formulas are compared by `alike`. -/
def sameEntry : Formula → Formula → Bool
  | .atom name _ _, .atom name' _ _ => name == name'
  | f, g => f.alike g

def depth : Formula → Nat
  | .atom .. => 0
  | .compound _ _ l r => 1 + max l.depth r.depth

/-- The atom at every leaf, from left to right. -/
def names : Formula → List String
  | .atom name _ _ => [name]
  | .compound _ _ l r => l.names ++ r.names

/-- The distinct atoms, in the order of their first appearance. -/
def atoms (f : Formula) : List String := f.names.eraseDups

end Formula

end Turnstile
