import Turnstile.Formula

/-!
Formulas as text, in symbols and in words. Both ways of writing put brackets around every operand
that is a compound formula, unless its negation already does.
-/

namespace Turnstile

/-- How negation and the connectives are spelled. The word for a connective may depend on the
operand that follows it. -/
structure Style where
  negation : String
  joint : Connective → Formula → String

def Connective.symbol : Connective → String
  | .and => "∧"
  | .or => "∨"
  | .implies => "→"
  | .iff => "↔"

/-- An implication whose consequent is an implication reads better with `that`. -/
def Connective.word : Connective → Formula → String
  | .and, _ => "and"
  | .or, _ => "or"
  | .implies, .imp _ _ => "implies that"
  | .implies, _ => "implies"
  | .iff, _ => "if and only if"

namespace Style

def symbolic : Style := ⟨"¬", fun op _ => op.symbol⟩

def english : Style := ⟨"not ", Connective.word⟩

end Style

namespace Formula

/-- A compound formula without a negation of its own stands in brackets as an operand. -/
def isGroup : Formula → Bool
  | .atom .. => false
  | .compound _ negated _ _ => !negated

def enclose (inBrackets : Bool) (text : String) : String :=
  if inBrackets then "(" ++ text ++ ")" else text

def write (style : Style) : Formula → String
  | .atom name negated _ => (if negated then style.negation else "") ++ name
  | .compound op negated l r =>
    let body := enclose l.isGroup (l.write style) ++ " " ++ style.joint op r ++ " " ++
      enclose r.isGroup (r.write style)
    if negated then style.negation ++ "(" ++ body ++ ")" else body

def symbolic (f : Formula) : String := f.write .symbolic

def english (f : Formula) : String := f.write .english

end Formula

/-- Formulas in symbols, with a separator between any two. -/
def writeList (separator : String) (formulas : List Formula) : String :=
  separator.intercalate (formulas.map Formula.symbolic)

end Turnstile
