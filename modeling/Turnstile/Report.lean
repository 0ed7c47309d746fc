import Turnstile.Json
import Turnstile.Session.Goal

/-!
The result of a search as text, in words and in symbols, and the JSON form that carries both.
-/

namespace Turnstile

structure Report where
  english : String
  symbolic : String
  deriving DecidableEq, Repr

namespace Report

/-- The same text in both. -/
def uniform (text : String) : Report := ⟨text, text⟩

def toJson (r : Report) : String :=
  "\x7b\"String\":" ++ Json.quote r.english ++ ",\"Symbol\":" ++ Json.quote r.symbolic ++ "\x7d"

/-- The text of a string value. -/
def textOf? : Json → Option String
  | .string codes => Json.text? codes
  | _ => none

/-- The text of the only member of a name. -/
def field? (members : List (String × Json)) (name : String) : Option String :=
  match members.filter fun (other, _) => other == name with
  | [(_, value)] => textOf? value
  | _ => none

/-- Takes the two texts from an object with both fields, once each and in any order, or from an
array of just the two. Other fields of an object are passed over. -/
def ofJson? : Json → Option Report
  | .array [english, symbolic] => do return ⟨← textOf? english, ← textOf? symbolic⟩
  | .object members => do
    let named ← members.mapM fun (codes, value) => (Json.text? codes).map fun name => (name, value)
    return ⟨← field? named "String", ← field? named "Symbol"⟩
  | _ => none

def parse? (text : String) : Option Report := (Json.parse? text).bind ofJson?

end Report

def Outcome.report : Outcome → Report
  | .proved proof => ⟨proof.write .english, proof.write .symbolic⟩
  | .notDerivable =>
    .uniform "Unfortunately, your inputted hypothesis does not derive this conclusion"
  | .limitExceeded limit =>
    .uniform ("The search limit was exceeded (" ++ limit.text ++
      ") before this conclusion could be derived")

/-- Which texts of a report are printed. -/
inductive Output where
  | both | symbolic | json
  deriving DecidableEq, Repr

def Output.render : Output → Report → String
  | .both, r => r.english ++ "\n" ++ r.symbolic
  | .symbolic, r => r.symbolic
  | .json, r => r.toJson

end Turnstile
