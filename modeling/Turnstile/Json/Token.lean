/-!
JSON text as a sequence of tokens. The scanner is an automaton that reads one character at a time;
it refuses the text at the first character that cannot go on.

A string token holds code points. Escapes may give surrogate halves, which are no characters; they
are joined, or refused, only when the string is decoded.
-/

namespace Turnstile.Json

inductive Token where
  | openArray | closeArray
  | openObject | closeObject
  | comma | colon
  | literal
  | number
  | string (codes : List Nat)
  deriving DecidableEq, Repr

/-- How far a number has been read. -/
inductive NumberPart where
  | minus
  | zero | whole
  | point | fraction
  | exponentMark | exponentSign | exponent
  deriving DecidableEq, Repr

namespace NumberPart

def isMark (c : Char) : Bool := c == 'e' || c == 'E'

def isSign (c : Char) : Bool := c == '+' || c == '-'

def next? : NumberPart → Char → Option NumberPart
  | .minus, c => if c == '0' then some .zero else if c.isDigit then some .whole else none
  | .zero, c => if c == '.' then some .point else if isMark c then some .exponentMark else none
  | .whole, c =>
    if c.isDigit then some .whole
    else if c == '.' then some .point
    else if isMark c then some .exponentMark else none
  | .point, c => if c.isDigit then some .fraction else none
  | .fraction, c =>
    if c.isDigit then some .fraction else if isMark c then some .exponentMark else none
  | .exponentMark, c =>
    if isSign c then some .exponentSign else if c.isDigit then some .exponent else none
  | .exponentSign, c => if c.isDigit then some .exponent else none
  | .exponent, c => if c.isDigit then some .exponent else none

/-- Whether a number may end here. -/
def isComplete : NumberPart → Bool
  | .zero | .whole | .fraction | .exponent => true
  | _ => false

end NumberPart

/-- Where the scanner stands: between tokens, or inside one. The code points of a string are kept
latest first. -/
inductive Mode where
  | gap
  | text (read : List Nat)
  | escape (read : List Nat)
  | hex (read : List Nat) (missing value : Nat)
  | word (left : List Char)
  | number (part : NumberPart)
  deriving DecidableEq, Repr

def isSpace (c : Char) : Bool := c == ' ' || c == '\t' || c == '\n' || c == '\r'

def hexDigit? (c : Char) : Option Nat :=
  if c.isDigit then some (c.toNat - '0'.toNat)
  else if 'a' ≤ c && c ≤ 'f' then some (c.toNat - 'a'.toNat + 10)
  else if 'A' ≤ c && c ≤ 'F' then some (c.toNat - 'A'.toNat + 10)
  else none

/-- The code point that a letter or mark stands for after a backslash. -/
def escaped? : Char → Option Nat
  | '"' => some 0x22
  | '\\' => some 0x5C
  | '/' => some 0x2F
  | 'b' => some 0x08
  | 'f' => some 0x0C
  | 'n' => some 0x0A
  | 'r' => some 0x0D
  | 't' => some 0x09
  | _ => none

namespace Mode

/-- One character between tokens. -/
def start (c : Char) : Option (Mode × List Token) :=
  if isSpace c then some (.gap, [])
  else if c == '[' then some (.gap, [.openArray])
  else if c == ']' then some (.gap, [.closeArray])
  else if c == '\x7b' then some (.gap, [.openObject])
  else if c == '\x7d' then some (.gap, [.closeObject])
  else if c == ',' then some (.gap, [.comma])
  else if c == ':' then some (.gap, [.colon])
  else if c == '"' then some (.text [], [])
  else if c == 't' then some (.word ['r', 'u', 'e'], [])
  else if c == 'f' then some (.word ['a', 'l', 's', 'e'], [])
  else if c == 'n' then some (.word ['u', 'l', 'l'], [])
  else if c == '-' then some (.number .minus, [])
  else if c == '0' then some (.number .zero, [])
  else if c.isDigit then some (.number .whole, [])
  else none

/-- One character: the mode after it and the tokens that it completes. -/
def step : Mode → Char → Option (Mode × List Token)
  | .gap, c => start c
  | .text read, c =>
    if c == '"' then some (.gap, [.string read.reverse])
    else if c == '\\' then some (.escape read, [])
    else if c.toNat < 0x20 then none
    else some (.text (c.toNat :: read), [])
  | .escape read, c =>
    if c == 'u' then some (.hex read 4 0, [])
    else (escaped? c).map fun code => (.text (code :: read), [])
  | .hex read missing value, c =>
    (hexDigit? c).map fun digit =>
      if missing ≤ 1 then (.text ((16 * value + digit) :: read), [])
      else (.hex read (missing - 1) (16 * value + digit), [])
  | .word left, c =>
    match left with
    | [] => none
    | x :: rest =>
      if c != x then none
      else if rest.isEmpty then some (.gap, [.literal]) else some (.word rest, [])
  | .number part, c =>
    match part.next? c with
    | some part => some (.number part, [])
    | none =>
      if part.isComplete then (start c).map fun (mode, tokens) => (mode, .number :: tokens)
      else none

/-- The tokens that the end of the text completes. -/
def finish : Mode → Option (List Token)
  | .gap => some []
  | .number part => if part.isComplete then some [.number] else none
  | _ => none

def scan (mode : Mode) : List Char → Option (List Token)
  | [] => mode.finish
  | c :: cs =>
    match mode.step c with
    | none => none
    | some (mode, tokens) => (mode.scan cs).map (tokens ++ ·)

end Mode

def tokens? (text : List Char) : Option (List Token) := Mode.gap.scan text

end Turnstile.Json
