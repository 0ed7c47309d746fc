import Turnstile.Formula.Writing
import Turnstile.Reader

/-!
Problems: hypotheses and a conclusion, written with a turnstile between them, one to a line.
-/

namespace Turnstile

structure Problem where
  hypotheses : List Formula
  conclusion : Formula
  deriving DecidableEq, Repr

inductive ProblemError where
  | unreadable (error : ParseError)
  /-- There is no turnstile in the text. -/
  | noTurnstile (text : String)
  deriving DecidableEq, Repr

def ProblemError.message : ProblemError → String
  | .unreadable error => error.message
  | .noTurnstile text => "Expected `hypotheses |- conclusion`, found " ++ Text.quote text

namespace Problem

def write (p : Problem) : String :=
  writeList ", " p.hypotheses ++ " ⊢ " ++ p.conclusion.symbolic

/-- What stands on the two sides of the turnstile. The one of two characters is looked for first. -/
def sides? (cs : List Char) : Option (List Char × List Char) :=
  (Text.splitOnce? ['|', '-'] cs).orElse fun _ => Text.splitOnce? ['⊢'] cs

/-- Reads hypotheses and conclusion separately; an error in the hypotheses comes first. -/
def parse (cs : List Char) : Except ProblemError Problem :=
  match sides? cs with
  | none => .error (.noTurnstile (String.ofList cs))
  | some (before, after) =>
    match parseHypotheses (String.ofList before) with
    | .error e => .error (.unreadable e)
    | .ok hypotheses =>
      match parseFormula (String.ofList after) with
      | .error e => .error (.unreadable e)
      | .ok conclusion => .ok ⟨hypotheses, conclusion⟩

/-- Whether a trimmed line holds a problem: it is not empty and not a comment. -/
def isStated : List Char → Bool
  | [] => false
  | c :: _ => c != '#'

/-- The trimmed lines that hold problems. -/
def stated (cs : List Char) : List (List Char) :=
  ((Text.lines cs).map Text.trim).filter isStated

/-- Reads a problem from each of the lines that hold one, up to the first error. -/
def parseMany (cs : List Char) : Except ProblemError (List Problem) :=
  (stated cs).mapM parse

end Problem

end Turnstile
