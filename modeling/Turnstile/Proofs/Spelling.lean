import Turnstile.Token

/-!
Texts as spelled tokens. A text spells a list of tokens if it is made of a spelling of each, in
order, with any blanks before, between and after them.

* `Token.spellings`: the spellings other than letters. `Token.SpelledBy` has the letters as well;
* `Spells`: texts and the tokens they spell;
* `spells_iff`: a text spells just the tokens it is cut into, provided that cutting gets to its end.
  So what it spells is unique.
-/

namespace Turnstile

namespace Token

/-- How the tokens other than atoms are spelled. -/
def spellings : List (String × Token) :=
  [("<->", .iff), ("<>", .iff), ("->", .implies), (">", .implies), ("→", .implies), ("↔", .iff),
    ("^", .and), ("∧", .and), ("\x60", .and), ("v", .or), ("V", .or), ("∨", .or),
    ("\x27", .prime), ("′", .prime), ("¬", .not), ("(", .opening), ("[", .opening),
    (")", .closing), ("]", .closing), (",", .comma)]

/-- The letters spell atoms, all but the two that spell another token. -/
inductive SpelledBy : Token → List Char → Prop
  | sign {word : String} {token : Token} (h : (word, token) ∈ spellings) :
      SpelledBy token word.toList
  | letter {c : Char} (halpha : c.isAlpha = true) (hv : c ≠ 'v') (hV : c ≠ 'V') :
      SpelledBy (.atom c) [c]

end Token

inductive Spells : List Char → List Token → Prop
  | nil : Spells [] []
  | blank {c : Char} {cs : List Char} {ts : List Token} (hc : Text.isBlank c = true)
      (h : Spells cs ts) : Spells (c :: cs) ts
  | token {t : Token} {word cs : List Char} {ts : List Token} (hword : t.SpelledBy word)
      (h : Spells cs ts) : Spells (word ++ cs) (t :: ts)

/-! ## Letters -/

theorem Text.isBlank_eq_false_of_isAlpha {c : Char} (h : c.isAlpha = true) :
    Text.isBlank c = false := by
  have hcase : (c.isUpper || c.isLower) = true := h
  have hcode : (65 ≤ c.toNat ∧ c.toNat ≤ 90) ∨ (97 ≤ c.toNat ∧ c.toNat ≤ 122) := by
    rcases Bool.or_eq_true_iff.mp hcase with hupper | hlower
    · exact Or.inl (of_decide_eq_true hupper)
    · obtain ⟨ha, hz⟩ := Bool.and_eq_true_iff.mp hlower
      exact Or.inr ⟨of_decide_eq_true ha, of_decide_eq_true hz⟩
  simp only [Text.isBlank, Bool.or_eq_false_iff, Bool.and_eq_false_iff, decide_eq_false_iff_not,
    beq_eq_false_iff_ne]
  omega

namespace Token

theorem ofChar?_letter {c : Char} (halpha : c.isAlpha = true) (hv : c ≠ 'v') (hV : c ≠ 'V') :
    ofChar? c = some (.atom c) := by
  unfold ofChar?
  split
  all_goals first | contradiction | rw [if_pos halpha]

theorem SpelledBy.of_mem {word : List Char} {t : Token}
    (h : (String.ofList word, t) ∈ spellings) : t.SpelledBy word := by
  have hword := SpelledBy.sign h
  rwa [String.toList_ofList] at hword

theorem spelledBy_of_ofChar? {c : Char} {t : Token} (h : ofChar? c = some t) :
    t.SpelledBy [c] := by
  unfold ofChar? at h
  split at h
  case h_18 =>
    -- the character is none of the signs
    split at h
    · next halpha =>
      cases h
      exact .letter halpha (by assumption) (by assumption)
    · cases h
  all_goals
    cases h
    exact .of_mem (by decide)

end Token

/-! ## Cutting a spelled text -/

namespace Scan

/-- No arrow starts with the character. -/
theorem fromPoint_cons {c : Char} (hless : c ≠ '<') (hdash : c ≠ '-') (p : Point)
    (cs : List Char) :
    fromPoint p (c :: cs) =
      if Text.isBlank c then fromPoint (p.past [c]) cs
      else match Token.ofChar? c with
        | some token => push token p [c] (fromPoint (p.past [c]) cs)
        | none => ⟨[], p.span [c]⟩ := by
  rw [fromPoint.eq_def]
  split
  · next h => cases h
  · next h => exact absurd (List.cons.inj h).1 hless
  · next h => exact absurd (List.cons.inj h).1 hless
  · next h => exact absurd (List.cons.inj h).1 hdash
  · next h =>
    cases h
    rfl

theorem fromPoint_blank {c : Char} (hc : Text.isBlank c = true) (p : Point) (cs : List Char) :
    fromPoint p (c :: cs) = fromPoint (p.past [c]) cs := by
  have hless : c ≠ '<' := by rintro rfl; cases hc
  have hdash : c ≠ '-' := by rintro rfl; cases hc
  rw [fromPoint_cons hless hdash, if_pos hc]

/-- Each sign is cut off as a whole, the longer arrows before those they end with. -/
theorem fromPoint_sign : ∀ entry ∈ Token.spellings, ∀ p cs,
    fromPoint p (entry.1.toList ++ cs) =
      push entry.2 p entry.1.toList (fromPoint (p.past entry.1.toList) cs) := by
  simp only [Token.spellings, List.forall_mem_cons]
  and_intros
  all_goals first | exact fun _ _ => rfl | exact List.forall_mem_nil _

theorem fromPoint_letter {c : Char} (halpha : c.isAlpha = true) (hv : c ≠ 'v') (hV : c ≠ 'V')
    (p : Point) (cs : List Char) :
    fromPoint p (c :: cs) = push (.atom c) p [c] (fromPoint (p.past [c]) cs) := by
  have hless : c ≠ '<' := by rintro rfl; contradiction
  have hdash : c ≠ '-' := by rintro rfl; contradiction
  rw [fromPoint_cons hless hdash, Text.isBlank_eq_false_of_isAlpha halpha,
    Token.ofChar?_letter halpha hv hV]
  rfl

/-- A spelling is cut off as a whole. -/
theorem fromPoint_word {t : Token} {word : List Char} (h : t.SpelledBy word) (p : Point)
    (cs : List Char) :
    fromPoint p (word ++ cs) =
      push t p word (fromPoint (p.past word) cs) := by
  cases h with
  | sign h => exact fromPoint_sign _ h p cs
  | letter halpha hv hV => exact fromPoint_letter halpha hv hV p cs

end Scan

theorem spells_iff {cs : List Char} {ts : List Token} (p : Point) :
    Spells cs ts ↔ (Scan.fromPoint p cs).stop.text = [] ∧
      (Scan.fromPoint p cs).lexemes.map Lexeme.token = ts := by
  constructor
  · intro h
    induction h generalizing p with
    | nil => exact ⟨rfl, rfl⟩
    | blank hc _ ih =>
      rw [Scan.fromPoint_blank hc]
      exact ih (p.past _)
    | token hword _ ih =>
      obtain ⟨hstop, htokens⟩ := ih (p.past _)
      rw [Scan.fromPoint_word hword]
      exact ⟨hstop, congrArg (List.cons _) htokens⟩
  · rintro ⟨hstop, rfl⟩
    fun_induction Scan.fromPoint p cs with
    | case1 p => exact .nil
    | case2 p cs ih =>
      have hword : Token.iff.SpelledBy ['<', '-', '>'] := .of_mem (by decide)
      exact .token hword (ih hstop)
    | case3 p cs ih =>
      have hword : Token.iff.SpelledBy ['<', '>'] := .of_mem (by decide)
      exact .token hword (ih hstop)
    | case4 p cs ih =>
      have hword : Token.implies.SpelledBy ['-', '>'] := .of_mem (by decide)
      exact .token hword (ih hstop)
    | case5 p c cs _ _ _ hblank ih => exact .blank hblank (ih hstop)
    | case6 p c cs _ _ _ _ t ht ih =>
      exact .token (Token.spelledBy_of_ofChar? ht) (ih hstop)
    | case7 => cases hstop

end Turnstile
