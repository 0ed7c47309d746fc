import Turnstile.Formula
import Turnstile.Text.Quoted
import Turnstile.Token

/-!
Reading formulas and lists of hypotheses. From loosest to tightest the connectives are equivalence,
implication, disjunction and conjunction; the first two group to the right and the others to the
left. A negation sign stands before an operand, a prime after it.

The reader goes through the lexemes once. Between lexemes it keeps the operands that still wait for
what stands to their right, one record for each bracket that is open.
-/

namespace Turnstile

inductive ParseError where
  /-- An operand should start here. -/
  | expectedFormula (place : Span)
  | unexpectedChar (place : Span) (found : Char)
  /-- The bracket at this place is still open where something else was found. -/
  | missingClose (bracket : Span) (found : List Char)
  /-- The formula ended before this place. -/
  | trailingInput (place : Span)
  deriving DecidableEq, Repr

namespace ParseError

/-- The place an error points at. -/
def place : ParseError → Span
  | .expectedFormula place => place
  | .unexpectedChar place _ => place
  | .missingClose bracket _ => bracket
  | .trailingInput place => place

end ParseError

def Span.message (place : Span) : String :=
  if place.text.isEmpty then "At the end of the input"
  else "In column " ++ toString place.column ++ ": " ++ String.ofList place.text

namespace ParseError

def reason : ParseError → String
  | .expectedFormula _ => "expected a letter, a negation or a parenthesized formula"
  | .unexpectedChar _ c => "unexpected character " ++ Text.quoteChar c
  | .missingClose _ found => "this parenthesis is never closed, found " ++ String.ofList found
  | .trailingInput _ => "unexpected input after a complete formula"

def message (error : ParseError) : String := error.place.message ++ "\n" ++ error.reason

end ParseError

/-- The operands of one bracket level that wait for an operand to their right: those of equivalences
and of implications with the innermost first, and at most one each of the other two. -/
structure Pending where
  iffs : List Formula
  implications : List Formula
  disjunction : Option Formula
  conjunction : Option Formula
  deriving DecidableEq, Repr

namespace Pending

def none : Pending := ⟨[], [], .none, .none⟩

/-- The conjunction that an operand completes. -/
def closeAnd (p : Pending) (f : Formula) : Formula :=
  match p.conjunction with
  | .none => f
  | some g => .conj g f

/-- The disjunction that an operand completes. -/
def closeOr (p : Pending) (f : Formula) : Formula :=
  match p.disjunction with
  | .none => p.closeAnd f
  | some g => .disj g (p.closeAnd f)

/-- The chain of implications that an operand completes. -/
def closeImplies (p : Pending) (f : Formula) : Formula :=
  p.implications.foldl (fun consequent antecedent => .imp antecedent consequent) (p.closeOr f)

/-- The whole formula that an operand completes. -/
def close (p : Pending) (f : Formula) : Formula :=
  p.iffs.foldl (fun rest first => .equiv first rest) (p.closeImplies f)

def pushAnd (p : Pending) (f : Formula) : Pending :=
  { p with conjunction := some (p.closeAnd f) }

def pushOr (p : Pending) (f : Formula) : Pending :=
  { p with disjunction := some (p.closeOr f), conjunction := .none }

def pushImplies (p : Pending) (f : Formula) : Pending :=
  { p with
    implications := p.closeOr f :: p.implications, disjunction := .none, conjunction := .none }

def pushIff (p : Pending) (f : Formula) : Pending :=
  ⟨p.closeImplies f :: p.iffs, [], .none, .none⟩

end Pending

/-- A bracket that is open: where it stands, whether the group is negated by signs before it, and
what waits outside it. -/
structure OpenBracket where
  place : Span
  negated : Bool
  outside : Pending
  deriving DecidableEq, Repr

/-- What the reader has at hand: an operand, or the need of one, negated or not by signs already
read. -/
inductive Operand where
  | wanted (negated : Bool)
  | read (formula : Formula)
  deriving DecidableEq, Repr

/-- The reader between two lexemes: complete formulas, latest first, the open brackets, innermost
first, what waits in the innermost, and the operand at hand. -/
structure Reader where
  finished : List Formula
  brackets : List OpenBracket
  pending : Pending
  operand : Operand
  deriving DecidableEq, Repr

/-- Which tokens end a formula outside all brackets and start the next one. -/
abbrev Separator := Token → Bool

def Separator.never : Separator := fun _ => false

/-- Commas and conjunction signs. -/
def Separator.items : Separator
  | .and | .comma => true
  | _ => false

namespace Reader

def start (finished : List Formula) : Reader := ⟨finished, [], .none, .wanted false⟩

def negateIf (negated : Bool) (f : Formula) : Formula := if negated then f.negate else f

/-- One lexeme where an operand has to start. -/
def beforeOperand (r : Reader) (negated : Bool) (x : Lexeme) : Except ParseError Reader :=
  match x.token with
  | .atom letter =>
    .ok { r with operand := .read (negateIf negated (.var (String.ofList [letter]))) }
  | .not => .ok { r with operand := .wanted (!negated) }
  | .opening =>
    .ok { r with
      brackets := ⟨x.span, negated, r.pending⟩ :: r.brackets
      pending := .none
      operand := .wanted false }
  | _ => .error (.expectedFormula x.span)

/-- The reader after a connective. -/
def await (r : Reader) (pending : Pending) : Reader :=
  { r with pending := pending, operand := .wanted false }

/-- One lexeme after an operand. -/
def afterOperand (separates : Separator) (r : Reader) (f : Formula) (x : Lexeme) :
    Except ParseError Reader :=
  if r.brackets.isEmpty && separates x.token then
    .ok (start (r.pending.close f :: r.finished))
  else match x.token with
    | .prime => .ok { r with operand := .read f.negate }
    | .and => .ok (r.await (r.pending.pushAnd f))
    | .or => .ok (r.await (r.pending.pushOr f))
    | .implies => .ok (r.await (r.pending.pushImplies f))
    | .iff => .ok (r.await (r.pending.pushIff f))
    | token =>
      match r.brackets with
      | [] => .error (.trailingInput x.span)
      | b :: outer =>
        if token = .closing then
          .ok { r with
            brackets := outer
            pending := b.outside
            operand := .read (negateIf b.negated (r.pending.close f)) }
        else .error (.missingClose b.place x.span.text)

def step (separates : Separator) (r : Reader) (x : Lexeme) : Except ParseError Reader :=
  match r.operand with
  | .wanted negated => r.beforeOperand negated x
  | .read f => r.afterOperand separates f x

/-- The last formula and the ones before it, latest first, when the lexemes have run out at a
place. -/
def finish (r : Reader) (stop : Span) : Except ParseError (Formula × List Formula) :=
  match stop.text with
  | c :: _ => .error (.unexpectedChar stop c)
  | [] =>
    match r.operand, r.brackets with
    | .wanted _, _ => .error (.expectedFormula stop)
    | .read _, b :: _ => .error (.missingClose b.place "end of input".toList)
    | .read f, [] => .ok (r.pending.close f, r.finished)

def run (separates : Separator) (r : Reader) : List Lexeme → Except ParseError Reader
  | [] => .ok r
  | x :: xs =>
    match r.step separates x with
    | .ok r => r.run separates xs
    | .error e => .error e

/-- The last formula of a text and the ones before it, latest first. -/
def read (separates : Separator) (scan : Scan) : Except ParseError (Formula × List Formula) :=
  match (start []).run separates scan.lexemes with
  | .ok r => r.finish scan.stop
  | .error e => .error e

end Reader

/-- Reads one formula. -/
def parseFormula (text : String) : Except ParseError Formula :=
  match Reader.read .never (.ofText text) with
  | .ok (f, _) => .ok f
  | .error e => .error e

/-- Reads hypotheses with commas or conjunction signs between them, outside all brackets. A blank
text has none. -/
def parseHypotheses (text : String) : Except ParseError (List Formula) :=
  if text.toList.all Text.isBlank then .ok []
  else match Reader.read .items (.ofText text) with
    | .ok (f, earlier) => .ok (f :: earlier).reverse
    | .error e => .error e

end Turnstile
