import Turnstile.Text.Blank

/-!
The tokens of the formula language and the places where they stand in a text. Letters are atoms,
except `v` and `V`, which spell disjunction; every other token has a few spellings. Round and square
brackets are one token each for opening and closing, so they may be mixed.
-/

namespace Turnstile

inductive Token where
  | atom (letter : Char)
  | not | prime
  | and | or | implies | iff
  | opening | closing
  | comma
  deriving DecidableEq, Repr

/-- A place in a text: the column where it starts, counted in characters from 1, the numbers of
bytes before it and up to its end, and the characters that stand there. -/
structure Span where
  column : Nat
  startByte : Nat
  endByte : Nat
  text : List Char
  deriving DecidableEq, Repr

/-- The number of bytes that characters take. -/
def Text.byteSize (cs : List Char) : Nat := cs.foldr (fun c n => c.utf8Size + n) 0

/-- A point between two characters of a text: the column of the one behind it, and the number of
bytes before it. -/
structure Point where
  column : Nat
  byte : Nat
  deriving DecidableEq, Repr

namespace Point

def origin : Point := ⟨1, 0⟩

/-- The point behind characters that start here. -/
def past (p : Point) (cs : List Char) : Point :=
  ⟨p.column + cs.length, p.byte + Text.byteSize cs⟩

/-- The place of characters that start here. -/
def span (p : Point) (cs : List Char) : Span := ⟨p.column, p.byte, (p.past cs).byte, cs⟩

end Point

structure Lexeme where
  token : Token
  span : Span
  deriving DecidableEq, Repr

namespace Token

/-- The token spelled by a single character. -/
def ofChar? : Char → Option Token
  | '>' | '→' => some .implies
  | '↔' => some .iff
  | '^' | '∧' | '\x60' => some .and
  | 'v' | 'V' | '∨' => some .or
  | '\x27' | '′' => some .prime
  | '¬' => some .not
  | '(' | '[' => some .opening
  | ')' | ']' => some .closing
  | ',' => some .comma
  | c => if c.isAlpha then some (.atom c) else none

end Token

/-- A text cut into lexemes. Cutting goes on to the end of the text, or to a character that no token
starts with; `stop` is that place. -/
structure Scan where
  lexemes : List Lexeme
  stop : Span
  deriving DecidableEq, Repr

namespace Scan

def push (token : Token) (point : Point) (word : List Char) (rest : Scan) : Scan :=
  { rest with lexemes := ⟨token, point.span word⟩ :: rest.lexemes }

/-- The lexemes from a point on. The three arrows of several characters are tried first, and blanks
are passed over. -/
def fromPoint : Point → List Char → Scan
  | p, [] => ⟨[], p.span []⟩
  | p, '<' :: '-' :: '>' :: cs =>
    push .iff p ['<', '-', '>'] (fromPoint (p.past ['<', '-', '>']) cs)
  | p, '<' :: '>' :: cs => push .iff p ['<', '>'] (fromPoint (p.past ['<', '>']) cs)
  | p, '-' :: '>' :: cs => push .implies p ['-', '>'] (fromPoint (p.past ['-', '>']) cs)
  | p, c :: cs =>
    if Text.isBlank c then fromPoint (p.past [c]) cs
    else match Token.ofChar? c with
      | some token => push token p [c] (fromPoint (p.past [c]) cs)
      | none => ⟨[], p.span [c]⟩

def ofText (text : String) : Scan := fromPoint .origin text.toList

end Scan

end Turnstile
