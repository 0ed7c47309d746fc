import Turnstile.Formula

/-!
Keys for finding a formula among many. Formulas that share an entry get the same key, whatever
functions the keys are mixed with: the operands of a commuting connective are mixed in the order
of their keys, and the sign of an atom that stands alone is left out.
-/

namespace Turnstile

/-- The mixing functions that keys are made of. An atom is mixed with its sign, or with none. -/
structure Digest where
  atom : String → Option Bool → UInt64
  compound : Connective → Bool → UInt64 → UInt64 → UInt64

namespace Digest

def mix (h x : UInt64) : UInt64 := (h ^^^ x) * 1099511628211

def seed : UInt64 := 14695981039346656037

def signCode : Option Bool → UInt64
  | none => 0
  | some false => 1
  | some true => 2

def connectiveCode : Connective → UInt64
  | .and => 3
  | .or => 5
  | .implies => 7
  | .iff => 11

def standard : Digest where
  atom name sign := mix (name.toList.foldl (fun h c => mix h c.val.toUInt64) seed) (signCode sign)
  compound op negated a b :=
    mix (mix (mix (mix seed (connectiveCode op)) (signCode (some negated))) a) b

end Digest

namespace Formula

/-- The key of a formula as an operand. -/
def key (d : Digest) : Formula → UInt64
  | .atom name negated _ => d.atom name (some negated)
  | .compound op negated l r =>
    let a := l.key d
    let b := r.key d
    if op.commutes && b < a then d.compound op negated b a else d.compound op negated a b

/-- The key of a formula as a fact. -/
def entryKey (d : Digest) : Formula → UInt64
  | .atom name _ _ => d.atom name none
  | f => f.key d

/-- Swapping the operands of a commuting connective does not change the key. -/
theorem key_swap (d : Digest) {op : Connective} (h : op.commutes = true) (negated : Bool)
    (l r : Formula) :
    key d (.compound op negated r l) = key d (.compound op negated l r) := by
  simp only [key, h, Bool.true_and, decide_eq_true_eq]
  by_cases hlt : l.key d < r.key d
  · have hnot : ¬ r.key d < l.key d := UInt64.lt_asymm hlt
    simp [hlt, hnot]
  · by_cases hgt : r.key d < l.key d
    · simp [hlt, hgt]
    · have heq : l.key d = r.key d :=
        UInt64.le_antisymm (UInt64.not_lt.mp hgt) (UInt64.not_lt.mp hlt)
      simp [heq]

theorem key_eq_of_alike (d : Digest) {f g : Formula} (h : f.alike g = true) :
    f.key d = g.key d := by
  induction f generalizing g with
  | atom name negated truth =>
    cases g with
    | atom name' negated' truth' =>
      simp only [alike, Bool.and_eq_true, beq_iff_eq] at h
      simp [key, h.1, h.2]
    | compound => simp [alike] at h
  | compound op negated l r ihl ihr =>
    cases g with
    | atom => simp [alike] at h
    | compound op' negated' l' r' =>
      simp only [alike, Bool.and_eq_true, Bool.or_eq_true, beq_iff_eq] at h
      obtain ⟨⟨rfl, rfl⟩, ⟨hl, hr⟩ | ⟨⟨hop, hl⟩, hr⟩⟩ := h
      · simp [key, ihl hl, ihr hr]
      · rw [← key_swap d hop]
        simp [key, ihl hl, ihr hr]

/-- Formulas that share an entry have the same key. -/
theorem entryKey_eq_of_sameEntry (d : Digest) {f g : Formula} (h : f.sameEntry g = true) :
    f.entryKey d = g.entryKey d := by
  cases f with
  | atom =>
    cases g with
    | atom => simpa [sameEntry, entryKey] using congrArg (d.atom · none) (eq_of_beq h)
    | compound => simp [sameEntry, alike] at h
  | compound =>
    cases g with
    | atom => simp [sameEntry, alike] at h
    | compound => exact key_eq_of_alike d h

end Formula

end Turnstile
