import Turnstile.Text.Visible

/-!
Quoted text for messages. Between the quotes the delimiter, the backslash and four control
characters are escaped by a letter or digit, and whatever cannot be shown by its code point.
-/

namespace Turnstile.Text

/-- A code point in braces, in the fewest hexadecimal digits. -/
def codePoint (c : Char) : String :=
  "\\u\x7b" ++ String.ofList (Nat.toDigits 16 c.toNat) ++ "\x7d"

/-- One character as it stands between two delimiters. -/
def escape (delimiter c : Char) : String :=
  if c == '\x00' then "\\0"
  else if c == '\t' then "\\t"
  else if c == '\r' then "\\r"
  else if c == '\n' then "\\n"
  else if c == '\\' then "\\\\"
  else if c == delimiter then String.ofList ['\\', c]
  else if isVisible c then String.ofList [c]
  else codePoint c

def quoteWith (delimiter : Char) (cs : List Char) : String :=
  String.ofList [delimiter] ++ String.join (cs.map (escape delimiter)) ++ String.ofList [delimiter]

/-- A single character between apostrophes. -/
def quoteChar (c : Char) : String := quoteWith '\x27' [c]

/-- A text between double quotes. -/
def quote (text : String) : String := quoteWith '"' text.toList

end Turnstile.Text
