/-!
Blank characters, and text cut and trimmed by them. Blank is every character of the Unicode
property `White_Space`. A line ends at a line feed and nowhere else; a carriage return before it is
blank, so it goes when the line is trimmed.
-/

namespace Turnstile.Text

def isBlank (c : Char) : Bool :=
  let n := c.toNat
  (0x09 ≤ n && n ≤ 0x0D) || n == 0x20 || n == 0x85 || n == 0xA0 || n == 0x1680 ||
    (0x2000 ≤ n && n ≤ 0x200A) || n == 0x2028 || n == 0x2029 || n == 0x202F || n == 0x205F ||
    n == 0x3000

/-- The text without the blanks at both ends. -/
def trim (cs : List Char) : List Char :=
  ((cs.dropWhile isBlank).reverse.dropWhile isBlank).reverse

/-- The pieces that each end at a terminator, which is left out, and what follows the last one if
anything does. -/
def cutAfter {α : Type} [BEq α] (terminator : α) : List α → List (List α)
  | [] => []
  | x :: xs =>
    if x == terminator then [] :: cutAfter terminator xs
    else match cutAfter terminator xs with
      | [] => [[x]]
      | piece :: pieces => (x :: piece) :: pieces

def lines (cs : List Char) : List (List Char) := cutAfter '\n' cs

/-- What stands before the first occurrence of a separator, and what stands after it. -/
def splitOnce? (separator : List Char) : List Char → Option (List Char × List Char)
  | [] => if separator.isEmpty then some ([], []) else none
  | c :: cs =>
    if separator.isPrefixOf (c :: cs) then some ([], (c :: cs).drop separator.length)
    else (splitOnce? separator cs).map fun (before, after) => (c :: before, after)

end Turnstile.Text
