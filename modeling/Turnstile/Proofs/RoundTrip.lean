import Turnstile.Formula.Writing
import Turnstile.Proofs.Grammar

/-!
Formulas written in symbols and read back.

The writer encloses an operand by its own kind and sign, while the reader groups by precedence. The
two agree because an operand as it is written always forms a phrase of the level of negation signs:
a letter, a formula in brackets, or one of these after a negation sign. So it may stand on either
side of every connective.

* `Formula.forget`: the formula with nothing known of its atoms, which is all that a text can tell;
* `SpellsPhrase`: a text that spells a phrase of a level with a given tree, with one lemma for each
  way in which the writer puts texts together;
* `Formula.spellsPhrase_symbolic`: what is written for a formula spells a phrase with the formula as
  its tree, of the level of negation signs unless it has to be enclosed;
* `parseFormula_symbolic`: so reading gives back the formula that was written.
-/

namespace Turnstile

namespace Formula

/-- The same formula with nothing known of its atoms. -/
def forget : Formula → Formula
  | .atom name negated _ => .atom name negated none
  | .compound op negated l r => .compound op negated l.forget r.forget

/-- A single letter, and neither of the two that spell disjunction. -/
def isLetter (name : String) : Bool :=
  match name.toList with
  | [c] => c.isAlpha && c != 'v' && c != 'V'
  | _ => false

/-- Every atom has such a name, as every atom read from a text has. -/
def IsLettered (f : Formula) : Prop := ∀ name ∈ f.names, isLetter name = true

instance (f : Formula) : Decidable f.IsLettered :=
  inferInstanceAs (Decidable (∀ name ∈ f.names, isLetter name = true))

theorem exists_letter {name : String} (h : isLetter name = true) :
    ∃ c : Char, name = String.ofList [c] ∧ c.isAlpha = true ∧ c ≠ 'v' ∧ c ≠ 'V' := by
  unfold isLetter at h
  split at h
  · next c hname =>
    simp only [Bool.and_eq_true, bne_iff_ne, and_assoc] at h
    exact ⟨c, by rw [← hname, String.ofList_toList], h⟩
  · cases h

theorem IsLettered.operands {op : Connective} {negated : Bool} {l r : Formula}
    (h : (compound op negated l r).IsLettered) : l.IsLettered ∧ r.IsLettered :=
  ⟨fun name hname => h name (List.mem_append_left _ hname),
    fun name hname => h name (List.mem_append_right _ hname)⟩

end Formula

/-! ## Texts put together -/

theorem Spells.append {cs ds : List Char} {ts us : List Token} (h : Spells cs ts)
    (h' : Spells ds us) : Spells (cs ++ ds) (ts ++ us) := by
  induction h with
  | nil => exact h'
  | blank hc _ ih => exact .blank hc ih
  | token hword _ ih =>
    rw [List.append_assoc]
    exact .token hword ih

theorem Token.SpelledBy.spells {t : Token} {word : List Char} (h : t.SpelledBy word) :
    Spells word [t] := by
  simpa using Spells.token h .nil

/-- The token that the symbol of a connective spells. -/
def Connective.token : Connective → Token
  | .and => .and
  | .or => .or
  | .implies => .implies
  | .iff => .iff

theorem Connective.spelledBy_symbol (op : Connective) :
    op.token.SpelledBy op.symbol.toList := by
  cases op <;> exact .sign (by decide)

/-- Two operands that need no brackets, with any connective between them. -/
theorem Phrase.joined (op : Connective) {ts us : List Token} {f g : Formula}
    (hl : Phrase .signed ts f) (hr : Phrase .signed us g) :
    Phrase .equivalence (ts ++ op.token :: us) (.compound op false f g) := by
  have hl_conjunction : Phrase .conjunction ts f := .conjunction (.primed hl)
  have hl_disjunction : Phrase .disjunction ts f := .disjunction hl_conjunction
  have hr_conjunction : Phrase .conjunction us g := .conjunction (.primed hr)
  have hr_implication : Phrase .implication us g := .implication (.disjunction hr_conjunction)
  cases op with
  | and => exact .equivalence (.implication (.disjunction (hl_conjunction.and (.primed hr))))
  | or => exact .equivalence (.implication (hl_disjunction.or hr_conjunction))
  | implies => exact .equivalence (hl_disjunction.implies hr_implication)
  | iff => exact (Phrase.implication hl_disjunction).iff (.equivalence hr_implication)

/-- The text spells a phrase of the level with the formula as its tree. -/
def SpellsPhrase (level : Precedence) (text : String) (f : Formula) : Prop :=
  ∃ ts, Spells text.toList ts ∧ Phrase level ts f

namespace SpellsPhrase

variable {text text' : String} {f g : Formula}

theorem letter {c : Char} (halpha : c.isAlpha = true) (hv : c ≠ 'v') (hV : c ≠ 'V') :
    SpellsPhrase .signed (String.ofList [c]) (.var (String.ofList [c])) := by
  refine ⟨[.atom c], ?_, .signed (.atom c)⟩
  rw [String.toList_ofList]
  exact (Token.SpelledBy.letter halpha hv hV).spells

theorem negated (h : SpellsPhrase .signed text f) :
    SpellsPhrase .signed ("¬" ++ text) f.negate := by
  obtain ⟨ts, hspells, hphrase⟩ := h
  refine ⟨.not :: ts, ?_, .not hphrase⟩
  rw [String.toList_append]
  exact .token (.sign (by decide)) hspells

theorem enclosed (h : SpellsPhrase .equivalence text f) :
    SpellsPhrase .signed ("(" ++ text ++ ")") f := by
  obtain ⟨ts, hspells, hphrase⟩ := h
  have hopening : Token.opening.SpelledBy "(".toList := .sign (by decide)
  have hclosing : Token.closing.SpelledBy ")".toList := .sign (by decide)
  refine ⟨[.opening] ++ ts ++ [.closing], ?_, .signed hphrase.group⟩
  rw [String.toList_append, String.toList_append]
  exact (hopening.spells.append hspells).append hclosing.spells

theorem joined (op : Connective) (hl : SpellsPhrase .signed text f)
    (hr : SpellsPhrase .signed text' g) :
    SpellsPhrase .equivalence (text ++ " " ++ op.symbol ++ " " ++ text')
      (.compound op false f g) := by
  obtain ⟨ts, hleft, hts⟩ := hl
  obtain ⟨us, hright, hus⟩ := hr
  have hblank : Spells " ".toList [] := .blank rfl .nil
  have hsymbol := op.spelledBy_symbol.spells
  have hspells := (((hleft.append hblank).append hsymbol).append hblank).append hright
  refine ⟨ts ++ op.token :: us, ?_, hts.joined op hus⟩
  simpa using hspells

end SpellsPhrase

/-! ## What is written for a formula -/

namespace Formula

/-- The level of what is written for a formula, before it is enclosed. -/
def writtenLevel (f : Formula) : Precedence := if f.isGroup then .equivalence else .signed

/-- By itself it is a whole formula. -/
theorem spellsPhrase_whole {f g : Formula} {text : String}
    (h : SpellsPhrase f.writtenLevel text g) : SpellsPhrase .equivalence text g := by
  unfold writtenLevel at h
  split at h
  · exact h
  · obtain ⟨ts, hspells, hphrase⟩ := h
    have hconjunction : Phrase .conjunction ts g := .conjunction (.primed hphrase)
    exact ⟨ts, hspells, .equivalence (.implication (.disjunction hconjunction))⟩

/-- Enclosed if need be, it may stand on either side of a connective. -/
theorem spellsPhrase_enclose {f g : Formula} {text : String}
    (h : SpellsPhrase f.writtenLevel text g) :
    SpellsPhrase .signed (enclose f.isGroup text) g := by
  unfold writtenLevel at h
  unfold enclose
  split at h
  · next hgroup =>
    rw [if_pos hgroup]
    exact h.enclosed
  · next hgroup =>
    rw [if_neg hgroup]
    exact h

theorem spellsPhrase_symbolic {f : Formula} (h : f.IsLettered) :
    SpellsPhrase f.writtenLevel f.symbolic f.forget := by
  induction f with
  | atom name negated truth =>
    obtain ⟨c, rfl, halpha, hv, hV⟩ := exists_letter (h name List.mem_cons_self)
    have hletter := SpellsPhrase.letter halpha hv hV
    cases negated with
    | false =>
      have htext : (atom (String.ofList [c]) false truth).symbolic = String.ofList [c] :=
        String.empty_append
      rw [htext]
      exact hletter
    | true => exact hletter.negated
  | compound op negated l r ihl ihr =>
    obtain ⟨hl, hr⟩ := h.operands
    have hbody := (spellsPhrase_enclose (ihl hl)).joined op (spellsPhrase_enclose (ihr hr))
    cases negated with
    | false => exact hbody
    | true =>
      have hnegated := hbody.enclosed.negated
      rw [← String.append_assoc, ← String.append_assoc] at hnegated
      exact hnegated

end Formula

/-! ## Reading back -/

/-- A text that spells a whole phrase is read as its tree. -/
theorem SpellsPhrase.parseFormula_eq {text : String} {f : Formula}
    (h : SpellsPhrase .equivalence text f) : parseFormula text = .ok f := by
  obtain ⟨ts, hspells, hphrase⟩ := h
  obtain ⟨hstop, htokens⟩ := (spells_iff .origin).mp hspells
  obtain ⟨p, g, hruns, hclose⟩ := hphrase.reading _ htokens [] [] .none ⟨rfl, rfl, rfl⟩
  refine parseFormula_eq_ok.mpr ⟨[], Reader.read_eq_ok_iff.mpr ⟨_, hruns, ?_⟩⟩
  have hclose : p.close g = f := hclose
  rw [Reader.finish, Scan.ofText, hstop, ← hclose]

/-- A formula of letters is read back from its symbols as it was, but for what was known of its
atoms. -/
theorem parseFormula_symbolic {f : Formula} (h : f.IsLettered) :
    parseFormula f.symbolic = .ok f.forget :=
  (Formula.spellsPhrase_whole (Formula.spellsPhrase_symbolic h)).parseFormula_eq

/-- Groups with and without a sign of their own, on either side, and an atom known to be false. -/
theorem parseFormula_symbolic_nested :
    let f : Formula := .compound .iff true
      (.compound .or true (.atom "A" true (some false)) (.disj (.var "b") (.var "A")))
      (.imp (.compound .implies true (.var "b") (.var "C")) (.conj (.var "C") (.var "Z")))
    f.IsLettered ∧ f.symbolic = "¬(¬(¬A ∨ (b ∨ A)) ↔ (¬(b → C) → (C ∧ Z)))" ∧
      parseFormula f.symbolic = .ok f.forget := by
  intro f
  have hlettered : f.IsLettered := by decide
  exact ⟨hlettered, by decide, parseFormula_symbolic hlettered⟩

end Turnstile
