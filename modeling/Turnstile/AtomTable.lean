import Turnstile.Event

/-!
The table of atoms: what is known of each, in the order of their first appearance.
-/

namespace Turnstile

abbrev AtomTable := List (String × Truth)

namespace AtomTable

/-- What is known of an atom; nothing if the table does not list it. -/
def get (t : AtomTable) (name : String) : Truth := (t.lookup name).getD none

def has (t : AtomTable) (name : String) : Bool := (t.lookup name).isSome

/-- Lists an atom at the end unless it is there already. -/
def note (t : AtomTable) (name : String) : AtomTable :=
  if t.has name then t else t ++ [(name, none)]

def noteAll (t : AtomTable) (names : List String) : AtomTable := names.foldl note t

/-- Writes a truth over the one an atom had, listing the atom if need be. -/
def put (t : AtomTable) (name : String) (truth : Truth) : AtomTable :=
  (t.note name).map fun (other, old) => if other == name then (other, truth) else (other, old)

/-- Like `put`; a known truth that turns into its opposite is reported. -/
def set (t : AtomTable) (name : String) (truth : Truth) : Logged AtomTable := do
  let before := t.get name
  if before.isSome && truth.isSome && before != truth then
    Logged.report (.flipped name before truth)
  return t.put name truth

/-- The table once a formula is a fact: its atoms are listed, and if it is an atom of known truth
that truth is set. -/
def learn (t : AtomTable) (f : Formula) : Logged AtomTable :=
  let listed := t.noteAll f.atoms
  match f with
  | .atom name _ (some truth) => listed.set name (some truth)
  | _ => pure listed

end AtomTable

end Turnstile
