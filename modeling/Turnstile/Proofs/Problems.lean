import Turnstile.Problem
import Turnstile.Proofs.Items
import Turnstile.Proofs.Legibility

/-!
Problems written and read back. The hypotheses are written one after the other, without brackets, so
a conjunction among them comes back as its two sides; all else comes back as it was.

* `Uncut`: a text that stays whole when a list is cut, since its separators stand in brackets. What
  is written for an operand is such a text, and what is written for a formula is, unless this is a
  conjunction;
* `SpellsList`: texts put together from such pieces. `SpellsList.parseHypotheses_eq`: they are read
  piece by piece;
* `spellsList_writeList`: what is written for hypotheses is such a text;
* `Problem.parse_write`: hence the statement on problems.
-/

namespace Turnstile

/-! ## Texts that are not cut -/

/-- Where at least so many brackets are open, the text is not cut. -/
def Uncut (least : Int) (cs : List Char) : Prop :=
  ∀ ⦃depth : Int⦄ ⦃rest piece : List Char⦄ ⦃pieces : List (List Char)⦄, least ≤ depth →
    CutInto depth rest (piece :: pieces) → CutInto depth (cs ++ rest) ((cs ++ piece) :: pieces)

namespace Uncut

variable {least : Int} {cs ds : List Char}

theorem append (h : Uncut least cs) (h' : Uncut least ds) : Uncut least (cs ++ ds) := by
  intro depth rest piece pieces hdepth hrest
  rw [List.append_assoc, List.append_assoc]
  exact h hdepth (h' hdepth hrest)

theorem blank {c : Char} (hc : Text.isBlank c = true) (h : Uncut least cs) :
    Uncut least (c :: cs) :=
  fun _ _ _ _ hdepth hrest => .blank hc (h hdepth hrest)

theorem word {t : Token} {word : List Char} (hword : t.SpelledBy word) (hnesting : t.nesting = 0)
    (h : 0 < least ∨ ¬ t.IsSeparator) : Uncut least word := by
  intro depth rest piece pieces hdepth hrest
  refine .token hword ?_ ?_
  · rintro ⟨rfl, ht⟩
    rcases h with h | h
    · omega
    · exact h ht
  · rwa [hnesting, Int.add_zero]

/-- Inside brackets more of them are open. -/
theorem enclosed (h : Uncut (least + 1) cs) : Uncut least ('(' :: (cs ++ [')'])) := by
  intro depth rest piece pieces hdepth hrest
  have hopening : Token.opening.SpelledBy ['('] := .of_mem (by decide)
  have hclosing : Token.closing.SpelledBy [')'] := .of_mem (by decide)
  have hafter : CutInto (depth + 1) ([')'] ++ rest) (([')'] ++ piece) :: pieces) := by
    refine .token hclosing (by rintro ⟨_, ht | ht⟩ <;> cases ht) ?_
    rwa [Token.nesting, Int.add_neg_cancel_right]
  have hinside := h (Int.add_le_add_right hdepth 1) hafter
  have hwhole : CutInto depth (['('] ++ (cs ++ ([')'] ++ rest)))
      ((['('] ++ (cs ++ ([')'] ++ piece))) :: pieces) :=
    .token hopening (by rintro ⟨_, ht | ht⟩ <;> cases ht) hinside
  simpa using hwhole

end Uncut

namespace Formula

variable {f : Formula}

theorem uncut_sign (least : Int) (negated : Bool) : Uncut least (Style.symbolic.sign negated) := by
  cases negated with
  | false => exact fun _ _ _ _ _ hrest => hrest
  | true =>
    have hnot : Token.not.SpelledBy ['¬'] := .of_mem (by decide)
    exact .word hnot rfl (Or.inr (by decide))

/-- Two operands with a connective between them, either inside brackets or without a separator. -/
theorem uncut_body {least : Int} (op : Connective) {cs ds : List Char}
    (h : 0 < least ∨ op ≠ .and) (hl : Uncut least cs) (hr : Uncut least ds) :
    Uncut least (cs ++ ' ' :: (op.symbol.toList ++ ' ' :: ds)) := by
  have hnesting : op.token.nesting = 0 := by cases op <;> rfl
  have hseparator : 0 < least ∨ ¬ op.token.IsSeparator := by
    refine h.imp_right fun hop => ?_
    cases op
    · exact absurd rfl hop
    all_goals decide
  have hsymbol := Uncut.word op.spelledBy_symbol hnesting hseparator
  exact hl.append (.blank rfl (hsymbol.append (.blank rfl hr)))

theorem uncut_operandText (h : f.IsLettered) {least : Int} (hleast : 0 ≤ least) :
    Uncut least (f.operandText .symbolic) := by
  induction f generalizing least with
  | atom name negated truth =>
    obtain ⟨c, rfl, halpha, hv, hV⟩ := exists_letter (h name List.mem_cons_self)
    rw [← List.append_nil (operandText _ _), operandText_letter]
    exact (uncut_sign least negated).append
      (.word (.letter halpha hv hV) rfl (Or.inr (by rintro (ht | ht) <;> cases ht)))
  | compound op negated l r ihl ihr =>
    obtain ⟨hl, hr⟩ := h.operands
    have hinside : 0 < least + 1 := by omega
    have hbody := uncut_body op (Or.inl hinside) (ihl hl (by omega)) (ihr hr (by omega))
    rw [← List.append_nil (operandText _ _), operandText_compound]
    have hoperand := (uncut_sign least negated).append hbody.enclosed
    simpa [Style.symbolic] using hoperand

theorem uncut_symbolic (h : f.IsLettered) (hconj : ∀ l r, f ≠ .conj l r) :
    Uncut 0 f.symbolic.toList := by
  cases hgroup : f.isGroup with
  | false =>
    have hoperand := uncut_operandText h (Int.le_refl 0)
    rwa [operandText_of_not_group hgroup] at hoperand
  | true =>
    cases f with
    | atom => cases hgroup
    | compound op negated l r =>
      cases negated with
      | true => cases hgroup
      | false =>
        have hop : op ≠ .and := by
          rintro rfl
          exact hconj l r rfl
        rw [symbolic, toList_write_group]
        exact uncut_body op (Or.inr hop) (uncut_operandText h.operands.1 (Int.le_refl 0))
          (uncut_operandText h.operands.2 (Int.le_refl 0))

end Formula

/-! ## Lists of such texts -/

/-- A text that is read as a formula and stays whole. -/
structure IsItem (cs : List Char) (f : Formula) : Prop where
  uncut : Uncut 0 cs
  phrase : SpellsPhrase .equivalence (String.ofList cs) f

/-- Such texts with separators between them. -/
inductive SpellsList : List Char → List Formula → Prop
  | single {cs : List Char} {f : Formula} (h : IsItem cs f) : SpellsList cs [f]
  | cons {cs ds word : List Char} {t : Token} {f : Formula} {fs : List Formula} (h : IsItem cs f)
      (hword : t.SpelledBy word) (ht : t.IsSeparator) (hrest : SpellsList ds fs) :
      SpellsList (cs ++ (word ++ ds)) (f :: fs)

namespace SpellsPhrase

variable {level : Precedence} {cs : List Char} {f : Formula}

theorem blankBefore (h : SpellsPhrase level (String.ofList cs) f) :
    SpellsPhrase level (String.ofList (' ' :: cs)) f := by
  obtain ⟨ts, hspells, hphrase⟩ := h
  rw [String.toList_ofList] at hspells
  refine ⟨ts, ?_, hphrase⟩
  rw [String.toList_ofList]
  exact .blank rfl hspells

theorem blankAfter (h : SpellsPhrase level (String.ofList cs) f) :
    SpellsPhrase level (String.ofList (cs ++ [' '])) f := by
  obtain ⟨ts, hspells, hphrase⟩ := h
  rw [String.toList_ofList] at hspells
  refine ⟨ts, ?_, hphrase⟩
  rw [String.toList_ofList, ← List.append_nil ts]
  exact hspells.append (.blank rfl .nil)

end SpellsPhrase

namespace IsItem

variable {cs : List Char} {f : Formula}

theorem blankBefore (h : IsItem cs f) : IsItem (' ' :: cs) f :=
  ⟨h.uncut.blank rfl, h.phrase.blankBefore⟩

theorem blankAfter (h : IsItem cs f) : IsItem (cs ++ [' ']) f := by
  have hblank : Uncut 0 [' '] := fun _ _ _ _ _ hrest => .blank rfl hrest
  exact ⟨h.uncut.append hblank, h.phrase.blankAfter⟩

end IsItem

namespace SpellsList

variable {cs ds : List Char} {fs gs : List Formula}

theorem blankBefore (h : SpellsList cs fs) : SpellsList (' ' :: cs) fs := by
  cases h with
  | single h => exact .single h.blankBefore
  | cons h hword ht hrest => exact .cons h.blankBefore hword ht hrest

theorem blankAfter (h : SpellsList cs fs) : SpellsList (cs ++ [' ']) fs := by
  induction h with
  | single h => exact .single h.blankAfter
  | cons h hword ht _ ih =>
    rw [List.append_assoc, List.append_assoc]
    exact .cons h hword ht ih

theorem append {t : Token} {word : List Char} (h : SpellsList cs fs) (hword : t.SpelledBy word)
    (ht : t.IsSeparator) (hrest : SpellsList ds gs) :
    SpellsList (cs ++ (word ++ ds)) (fs ++ gs) := by
  induction h with
  | single h => exact .cons h hword ht hrest
  | cons h hword' ht' _ ih =>
    rw [List.append_assoc, List.append_assoc]
    exact .cons h hword' ht' ih

theorem exists_cutInto (h : SpellsList cs fs) : ∃ pieces, CutInto 0 cs pieces ∧
    List.Forall₂ (fun piece f => parseFormula (String.ofList piece) = .ok f) pieces fs := by
  induction h with
  | single h =>
    have hcut := h.uncut (Int.le_refl 0) (.nil 0)
    rw [List.append_nil] at hcut
    exact ⟨_, hcut, .cons h.phrase.parseFormula_eq .nil⟩
  | cons h hword ht _ ih =>
    obtain ⟨pieces, hcut, hpieces⟩ := ih
    have hcut := h.uncut (Int.le_refl 0) (.separator hword ht hcut)
    rw [List.append_nil] at hcut
    exact ⟨_, hcut, .cons h.phrase.parseFormula_eq hpieces⟩

/-- The pieces are read one by one. -/
theorem parseHypotheses_eq (h : SpellsList cs fs) :
    parseHypotheses (String.ofList cs) = .ok fs := by
  obtain ⟨pieces, hcut, hpieces⟩ := h.exists_cutInto
  have hitems := (forall₂_parseFormula_iff (hcut.spells_items .origin)).mp hpieces
  have hblank : ¬ cs.all Text.isBlank = true := by
    intro hblank
    have htokens := ((spells_iff .origin).mp (spells_nil_of_blank hblank)).2
    rw [List.map_eq_nil_iff.mp htokens] at hitems
    cases hitems with
    | cons hphrase => exact not_phrase_nil _ hphrase
  obtain ⟨ts, hspells⟩ := hcut.spells
  rw [parseHypotheses_eq_ok_iff_items (by rwa [String.toList_ofList]), Scan.ofText,
    String.toList_ofList]
  exact ⟨((spells_iff .origin).mp hspells).1, hitems⟩

end SpellsList

/-! ## What is written for hypotheses -/

namespace Formula

/-- What a formula becomes in a list: a conjunction its two sides, any other formula itself. -/
def separate : Formula → List Formula
  | .conj l r => [l, r]
  | f => [f]

theorem isItem_operandText {f : Formula} (h : f.IsLettered) :
    IsItem (f.operandText .symbolic) f.forget := by
  refine ⟨uncut_operandText h (Int.le_refl 0), ?_⟩
  rw [operandText, String.ofList_toList]
  obtain ⟨ts, hspells, hphrase⟩ := spellsPhrase_enclose (spellsPhrase_symbolic h)
  exact ⟨ts, hspells, .equivalence (.implication (.disjunction (.conjunction (.primed hphrase))))⟩

theorem spellsList_symbolic {f : Formula} (h : f.IsLettered) :
    SpellsList f.symbolic.toList (f.separate.map forget) := by
  unfold separate
  split
  · next l r =>
    have hand := Connective.spelledBy_symbol .and
    have hl := SpellsList.single (isItem_operandText h.operands.1)
    have hr := SpellsList.single (isItem_operandText h.operands.2)
    have hboth := hl.blankAfter.append hand (Or.inl rfl) hr.blankBefore
    rw [List.append_assoc] at hboth
    rw [symbolic, toList_write_group]
    exact hboth
  · next hconj =>
    refine .single ⟨uncut_symbolic h hconj, ?_⟩
    rw [String.ofList_toList]
    exact spellsPhrase_whole (spellsPhrase_symbolic h)

end Formula

theorem writeList_cons_cons (f g : Formula) (fs : List Formula) :
    (writeList ", " (f :: g :: fs)).toList =
      f.symbolic.toList ++ ',' :: ' ' :: (writeList ", " (g :: fs)).toList := by
  simp [writeList, String.intercalate_cons_cons]

theorem spellsList_writeList {f : Formula} {fs : List Formula} (h : ∀ g ∈ f :: fs, g.IsLettered) :
    SpellsList (writeList ", " (f :: fs)).toList
      (((f :: fs).flatMap Formula.separate).map .forget) := by
  induction fs generalizing f with
  | nil =>
    have hsingle := Formula.spellsList_symbolic (h f List.mem_cons_self)
    simpa [writeList] using hsingle
  | cons g gs ih =>
    have hcomma : Token.comma.SpelledBy [','] := .of_mem (by decide)
    have hfirst := Formula.spellsList_symbolic (h f List.mem_cons_self)
    have hrest := ih fun g hg => h g (List.mem_cons_of_mem f hg)
    have hall := hfirst.append hcomma (Or.inr rfl) hrest.blankBefore
    rw [writeList_cons_cons]
    simpa using hall

/-! ## Problems -/

theorem Text.splitOnce?_eq_none {c : Char} {cs : List Char} (h : c ∉ cs) (rest : List Char) :
    Text.splitOnce? (c :: rest) cs = none := by
  induction cs with
  | nil => rfl
  | cons d ds ih =>
    obtain ⟨hne, hds⟩ := not_or.mp (mt List.mem_cons.mpr h)
    simp [splitOnce?, ih hds, hne]

theorem Text.splitOnce?_append {c : Char} {cs : List Char} (h : c ∉ cs) (ds : List Char) :
    Text.splitOnce? [c] (cs ++ c :: ds) = some (cs, ds) := by
  induction cs with
  | nil => simp [splitOnce?]
  | cons d cs ih =>
    obtain ⟨hne, hcs⟩ := not_or.mp (mt List.mem_cons.mpr h)
    simp [splitOnce?, ih hcs, hne]

theorem not_mem_writeList {c : Char} (hc : Style.symbolic.Avoids c) (hcomma : c ≠ ',')
    {fs : List Formula} (h : ∀ f ∈ fs, f.IsLettered) : c ∉ (writeList ", " fs).toList := by
  have hfirst : ∀ f ∈ fs, c ∉ f.symbolic.toList := fun f hf => Formula.not_mem_write hc (h f hf)
  have hblank : c ≠ ' ' := fun heq => hc.marks (by simp [heq])
  induction fs with
  | nil => simp [writeList]
  | cons f fs ih =>
    cases fs with
    | nil => simpa [writeList] using hfirst f List.mem_cons_self
    | cons g gs =>
      have hrest := ih (fun g hg => h g (List.mem_cons_of_mem f hg))
        fun g hg => hfirst g (List.mem_cons_of_mem f hg)
      simp [writeList_cons_cons, hfirst, hrest, hcomma, hblank]

namespace Problem

/-- Its formulas are made of letters, as those read from a text are. -/
def IsLettered (p : Problem) : Prop :=
  (∀ f ∈ p.hypotheses, f.IsLettered) ∧ p.conclusion.IsLettered

instance (p : Problem) : Decidable p.IsLettered :=
  inferInstanceAs (Decidable ((∀ f ∈ p.hypotheses, f.IsLettered) ∧ p.conclusion.IsLettered))

variable {p : Problem}

theorem sides?_write (h : p.IsLettered) :
    sides? p.write.toList = some ((writeList ", " p.hypotheses).toList ++ [' '],
      ' ' :: p.conclusion.symbolic.toList) := by
  have htext : p.write.toList = (writeList ", " p.hypotheses).toList ++ [' '] ++
      '⊢' :: ' ' :: p.conclusion.symbolic.toList := by
    simp [write]
  have hbar : Style.symbolic.Avoids '|' := Style.avoids_symbolic '|' (by decide)
  have hturnstile : Style.symbolic.Avoids '⊢' := Style.avoids_symbolic '⊢' (by decide)
  have hnone : Text.splitOnce? ['|', '-'] p.write.toList = none := by
    refine Text.splitOnce?_eq_none ?_ ['-']
    have hhypotheses := not_mem_writeList hbar (by decide) h.1
    have hconclusion := Formula.not_mem_write hbar h.2
    simp [htext, hhypotheses, Formula.symbolic, hconclusion]
  have hsome : '⊢' ∉ (writeList ", " p.hypotheses).toList ++ [' '] := by
    simp [not_mem_writeList hturnstile (by decide) h.1]
  rw [sides?, hnone, htext]
  exact Text.splitOnce?_append hsome _

theorem parseHypotheses_writeList {fs : List Formula} (h : ∀ f ∈ fs, f.IsLettered) :
    parseHypotheses (String.ofList ((writeList ", " fs).toList ++ [' '])) =
      .ok ((fs.flatMap Formula.separate).map .forget) := by
  cases fs with
  | nil => rfl
  | cons f fs => exact (spellsList_writeList h).blankAfter.parseHypotheses_eq

/-- A problem of letters is read back from what is written for it with each hypothesis that is a
conjunction replaced by its two sides, and otherwise as it was but for what was known of its
atoms. -/
theorem parse_write (h : p.IsLettered) :
    parse p.write.toList =
      .ok ⟨(p.hypotheses.flatMap Formula.separate).map .forget, p.conclusion.forget⟩ := by
  have hconclusion : SpellsPhrase .equivalence (String.ofList p.conclusion.symbolic.toList)
      p.conclusion.forget := by
    rw [String.ofList_toList]
    exact Formula.spellsPhrase_whole (Formula.spellsPhrase_symbolic h.2)
  rw [parse, sides?_write h]
  simp only [parseHypotheses_writeList h.1, hconclusion.blankBefore.parseFormula_eq]

/-- Conjunctions of conjunctions, negated ones and one as the conclusion, with atoms of which
something is known. -/
theorem parse_write_conjunctions :
    let both : Formula := .conj (.atom "A" true (some true)) (.var "b")
    let neither : Formula := .compound .and true (.var "A") (.atom "b" false (some false))
    let p : Problem := ⟨[.conj both neither, neither, .disj both (.var "C")], both⟩
    p.IsLettered ∧
      p.write = "(¬A ∧ b) ∧ ¬(A ∧ b), ¬(A ∧ b), (¬A ∧ b) ∨ C ⊢ ¬A ∧ b" ∧
      parse p.write.toList =
        .ok ⟨[both.forget, neither.forget, neither.forget, .disj both.forget (.var "C")],
          both.forget⟩ := by
  intro both neither p
  have hlettered : p.IsLettered := by decide
  exact ⟨hlettered, by decide, parse_write hlettered⟩

end Problem

end Turnstile
