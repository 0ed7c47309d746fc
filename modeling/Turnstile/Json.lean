import Turnstile.Json.Token

/-!
JSON values and strings. Reading keeps what a reader of named text fields can ask for: arrays,
objects and strings. All numbers are one value, and so are the three literals.
-/

namespace Turnstile

inductive Json where
  | literal
  | number
  | string (codes : List Nat)
  | array (items : List Json)
  | object (members : List (List Nat × Json))
  deriving Repr

namespace Json

/-- An array or object being read, its parts latest first. A member is an object together with the
name whose value is being read. -/
inductive Frame where
  | array (items : List Json)
  | object (members : List (List Nat × Json))
  | member (members : List (List Nat × Json)) (name : List Nat)

/-- What has to come next inside the innermost frame. -/
inductive Need where
  | value
  | itemOrEnd
  | name
  | nameOrEnd
  | colon
  | commaOrEnd
  deriving DecidableEq, Repr

inductive State where
  | reading (need : Need) (frames : List Frame)
  | done (value : Json)

/-- A complete value goes into the innermost frame, or is the whole. -/
def deliver (value : Json) : List Frame → Option State
  | [] => some (.done value)
  | .array items :: outer => some (.reading .commaOrEnd (.array (value :: items) :: outer))
  | .member members name :: outer =>
    some (.reading .commaOrEnd (.object ((name, value) :: members) :: outer))
  | .object _ :: _ => none

/-- The start of a value. -/
def beginValue (frames : List Frame) : Token → Option State
  | .literal => deliver .literal frames
  | .number => deliver .number frames
  | .string codes => deliver (.string codes) frames
  | .openArray => some (.reading .itemOrEnd (.array [] :: frames))
  | .openObject => some (.reading .nameOrEnd (.object [] :: frames))
  | _ => none

/-- The end of the innermost frame. -/
def endFrame : List Frame → Token → Option State
  | .array items :: outer, .closeArray => deliver (.array items.reverse) outer
  | .object members :: outer, .closeObject => deliver (.object members.reverse) outer
  | _, _ => none

/-- The name of a member. -/
def beginMember : List Frame → Token → Option State
  | .object members :: outer, .string name =>
    some (.reading .colon (.member members name :: outer))
  | _, _ => none

/-- After a comma an array needs a value and an object a name. -/
def afterComma : List Frame → Option State
  | .array items :: outer => some (.reading .value (.array items :: outer))
  | .object members :: outer => some (.reading .name (.object members :: outer))
  | _ => none

def State.step : State → Token → Option State
  | .done _, _ => none
  | .reading .value frames, t => beginValue frames t
  | .reading .itemOrEnd frames, t => (endFrame frames t).orElse fun _ => beginValue frames t
  | .reading .name frames, t => beginMember frames t
  | .reading .nameOrEnd frames, t => (endFrame frames t).orElse fun _ => beginMember frames t
  | .reading .colon frames, t => if t = .colon then some (.reading .value frames) else none
  | .reading .commaOrEnd frames, t => if t = .comma then afterComma frames else endFrame frames t

def ofTokens? (tokens : List Token) : Option Json :=
  match tokens.foldlM State.step (.reading .value []) with
  | some (.done value) => some value
  | _ => none

/-- Reads a text that holds one value and nothing else but space. -/
def parse? (text : String) : Option Json := (tokens? text.toList).bind ofTokens?

def isHighSurrogate (n : Nat) : Bool := 0xD800 ≤ n && n < 0xDC00

def isLowSurrogate (n : Nat) : Bool := 0xDC00 ≤ n && n < 0xE000

/-- The characters of a string. Two surrogate halves in a row make one character, and a half that
stands alone makes the string unreadable. -/
def decode? : List Nat → Option (List Char)
  | [] => some []
  | high :: low :: codes =>
    if isHighSurrogate high then
      if isLowSurrogate low then
        (decode? codes).map (Char.ofNat (0x10000 + (high - 0xD800) * 0x400 + (low - 0xDC00)) :: ·)
      else none
    else if isLowSurrogate high then none
    else (decode? (low :: codes)).map (Char.ofNat high :: ·)
  | [code] =>
    if isHighSurrogate code || isLowSurrogate code then none else some [Char.ofNat code]

def text? (codes : List Nat) : Option String := (decode? codes).map String.ofList

/-- One character as it stands in a string. -/
def escape (c : Char) : List Char :=
  if c == '"' then ['\\', '"']
  else if c == '\\' then ['\\', '\\']
  else if c == '\x08' then ['\\', 'b']
  else if c == '\x0C' then ['\\', 'f']
  else if c == '\n' then ['\\', 'n']
  else if c == '\r' then ['\\', 'r']
  else if c == '\t' then ['\\', 't']
  else if c.toNat < 0x20 then
    ['\\', 'u', '0', '0', Nat.digitChar (c.toNat / 16), Nat.digitChar (c.toNat % 16)]
  else [c]

def quote (text : String) : String :=
  "\"" ++ String.ofList (text.toList.flatMap escape) ++ "\""

end Json

end Turnstile
