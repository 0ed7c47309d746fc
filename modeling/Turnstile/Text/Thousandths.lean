/-!
Numbers written with three decimal places. A binary fraction has an exact decimal value; that value
is rounded to the nearest thousandth, and a half goes to the even neighbour.
-/

namespace Turnstile.Text

/-- A quotient rounded to the nearest natural number, a half to the even one. -/
def roundHalfEven (num den : Nat) : Nat :=
  let q := num / den
  let r := num % den
  if den < 2 * r || (2 * r == den && q % 2 == 1) then q + 1 else q

/-- A number of thousandths in decimal notation. -/
def writeThousandths (n : Nat) : String :=
  let digits := toString (n % 1000)
  toString (n / 1000) ++ "." ++ String.ofList (List.replicate (3 - digits.length) '0') ++ digits

/-- The thousandths in a finite number that is not negative, read off its significand and
exponent. -/
def thousandths (x : Float) : Nat :=
  let bits := x.toBits.toNat
  let unit := Nat.pow 2 52
  let exponent := bits / unit
  let significand := bits % unit + (if exponent == 0 then 0 else unit)
  let scale := max exponent 1
  if 1075 ≤ scale then significand * Nat.pow 2 (scale - 1075) * 1000
  else roundHalfEven (significand * 1000) (Nat.pow 2 (1075 - scale))

/-- A duration in microseconds, in seconds. Whole seconds and the part below one second are each
taken to the nearest binary fraction before they are added. -/
def seconds (microseconds : Nat) : String :=
  let whole := Float.ofNat (microseconds / 1000000)
  let part := Float.ofNat (microseconds % 1000000 * 1000) / 1000000000.0
  writeThousandths (thousandths (whole + part))

end Turnstile.Text
