import Mathlib.Data.Bool.AllAny
import Turnstile.Proofs.RoundTrip

/-!
Formulas can be told from what is written for them, in symbols and in words.

An operand ends where its text says so: it is a letter, or it ends with the bracket that closes it,
and a sign may come before. So if two operands, each with more text behind it, read the same, the
operands are the same and what follows them is the same. Words make this harder than symbols, for a
letter may begin a word; but an operand that is a letter is followed by no other letter.

* `Style.IsLegible`: what a style has to provide. `isLegible_symbolic` and `isLegible_english`: both
  styles do;
* `Formula.operandText_append_inj`: the statement on operands, by induction on the formula;
* `Formula.write_eq_iff`: so two formulas are written the same just if they differ at most in what
  is known of their atoms;
* `Formula.not_mem_write`: the characters that are not used.
-/

namespace Turnstile

/-! ## Styles -/

/-- No letter comes first. -/
def StopsWord (cs : List Char) : Prop := ∀ c ∈ cs.head?, c.isAlpha = false

/-- The text starts as an operand without a sign does: with a bracket, or with a letter by
itself. -/
inductive StartsUnsigned : List Char → Prop
  | bracket (cs : List Char) : StartsUnsigned ('(' :: cs)
  | letter {c : Char} {cs : List Char} (hc : c.isAlpha = true) (h : StopsWord cs) :
      StartsUnsigned (c :: cs)

/-- The characters that mark off formulas in a larger text. -/
def reserved : List Char := [',', '\n', '|', '⊢']

namespace Style

/-- The character is none of those that formulas are written with. -/
structure Avoids (style : Style) (c : Char) : Prop where
  letter : c.isAlpha = false
  marks : c ∉ ['(', ')', ' ']
  negation : c ∉ style.negation.toList
  joint : ∀ op r, c ∉ (style.joint op r).toList

/-- What stands before an operand, negated or not. -/
def sign (style : Style) (negated : Bool) : List Char :=
  if negated then style.negation.toList else []

/-- The text starts as an operand does. -/
def StartsOperand (style : Style) (cs : List Char) : Prop :=
  ∃ negated ds, cs = style.sign negated ++ ds ∧ StartsUnsigned ds

/-- A negation cannot be taken for the start of an operand without one, nor one connective for
another; what is known of atoms is not written, and the reserved characters are not used. -/
structure IsLegible (style : Style) : Prop where
  negation : ∀ {cs ds : List Char}, StartsUnsigned cs → cs ≠ style.negation.toList ++ ds
  joint : ∀ {op op' : Connective} {r r' : Formula} {cs ds : List Char}, style.StartsOperand cs →
    style.StartsOperand ds →
    (style.joint op r).toList ++ ' ' :: cs = (style.joint op' r').toList ++ ' ' :: ds →
    op = op' ∧ cs = ds
  forget : ∀ (op : Connective) (r : Formula), style.joint op r.forget = style.joint op r
  avoids : ∀ c ∈ reserved, style.Avoids c

theorem toList_symbol (op : Connective) :
    op.symbol.toList = match op with
      | .and => ['∧']
      | .or => ['∨']
      | .implies => ['→']
      | .iff => ['↔'] := by
  cases op <;> rfl

/-- A style avoids the reserved characters if its negation and its connectives do. -/
theorem avoids_of_mem_reserved {style : Style}
    (hnegation : ∀ c ∈ reserved, c ∉ style.negation.toList)
    (hjoint : ∀ op r, ∀ c ∈ reserved, c ∉ (style.joint op r).toList) :
    ∀ c ∈ reserved, style.Avoids c := by
  have hletter : ∀ c ∈ reserved, c.isAlpha = false := List.all_iff_forall_prop.mp (by decide)
  have hmarks : ∀ c ∈ reserved, c ∉ ['(', ')', ' '] := List.all_iff_forall_prop.mp (by decide)
  exact fun c hc => ⟨hletter c hc, hmarks c hc, hnegation c hc, fun op r => hjoint op r c hc⟩

theorem avoids_symbolic : ∀ c ∈ reserved, symbolic.Avoids c := by
  refine avoids_of_mem_reserved (List.all_iff_forall_prop.mp (by decide)) fun op r => ?_
  have hjoint : symbolic.joint op r = op.symbol := rfl
  rw [hjoint]
  refine List.all_iff_forall_prop.mp ?_
  cases op <;> decide

theorem isLegible_symbolic : symbolic.IsLegible where
  negation := by
    intro cs ds hcs h
    have hhead : cs = '¬' :: ds := h
    cases hcs with
    | bracket => cases hhead
    | letter hc =>
      cases hhead
      contradiction
  joint := by
    intro op op' r r' cs ds _ _ h
    have hsymbols : op.symbol.toList ++ ' ' :: cs = op'.symbol.toList ++ ' ' :: ds := h
    rw [toList_symbol, toList_symbol] at hsymbols
    cases op <;> cases op' <;> simp_all
  forget _ _ := rfl
  avoids := avoids_symbolic

/-- The word for a connective, less the word that may be added to it. -/
def stem : Connective → List Char
  | .and => ['a', 'n', 'd']
  | .or => ['o', 'r']
  | .implies => ['i', 'm', 'p', 'l', 'i', 'e', 's']
  | .iff => ['i', 'f', ' ', 'a', 'n', 'd', ' ', 'o', 'n', 'l', 'y', ' ', 'i', 'f']

theorem exists_toList_word (op : Connective) (r : Formula) :
    ∃ added, (op.word r).toList = stem op ++ added ∧
      (added = [] ∨ added = [' ', 't', 'h', 'a', 't']) := by
  unfold Connective.word
  split
  case h_3 => exact ⟨_, rfl, Or.inr rfl⟩
  all_goals exact ⟨[], rfl, Or.inl rfl⟩

/-- No stem begins another. -/
theorem stem_inj {op op' : Connective} {cs ds : List Char} (h : stem op ++ cs = stem op' ++ ds) :
    op = op' ∧ cs = ds := by
  cases op <;> cases op' <;> simp_all [stem]

/-- Where an operand has to start, no other word does. -/
theorem not_startsOperand_that (cs : List Char) :
    ¬ english.StartsOperand (['t', 'h', 'a', 't'] ++ cs) := by
  rintro ⟨negated, ds, h, hds⟩
  cases negated with
  | true =>
    have hhead : ['t', 'h', 'a', 't'] ++ cs = ['n', 'o', 't', ' '] ++ ds := h
    cases hhead
  | false =>
    have hhead : ['t', 'h', 'a', 't'] ++ cs = ds := h
    rw [← hhead] at hds
    cases hds with
    | letter _ hstops => cases hstops 'h' rfl

theorem avoids_english : ∀ c ∈ reserved, english.Avoids c := by
  refine avoids_of_mem_reserved (List.all_iff_forall_prop.mp (by decide)) fun op r => ?_
  obtain ⟨added, hword, hadded⟩ := exists_toList_word op r
  have hjoint : (english.joint op r).toList = stem op ++ added := hword
  rw [hjoint]
  refine List.all_iff_forall_prop.mp ?_
  rcases hadded with rfl | rfl <;> cases op <;> decide

theorem isLegible_english : english.IsLegible where
  negation := by
    intro cs ds hcs h
    have hhead : cs = 'n' :: 'o' :: 't' :: ' ' :: ds := h
    cases hcs with
    | bracket => cases hhead
    | letter _ hstops =>
      cases hhead
      cases hstops 'o' rfl
  joint := by
    intro op op' r r' cs ds hcs hds h
    have hwords : (op.word r).toList ++ ' ' :: cs = (op'.word r').toList ++ ' ' :: ds := h
    obtain ⟨added, hword, hadded⟩ := exists_toList_word op r
    obtain ⟨added', hword', hadded'⟩ := exists_toList_word op' r'
    rw [hword, hword', List.append_assoc, List.append_assoc] at hwords
    obtain ⟨hop, hrest⟩ := stem_inj hwords
    refine ⟨hop, ?_⟩
    rcases hadded with rfl | rfl <;> rcases hadded' with rfl | rfl <;> cases hrest
    · rfl
    · exact absurd hcs (not_startsOperand_that _)
    · exact absurd hds (not_startsOperand_that _)
    · rfl
  forget op r := by
    cases op with
    | implies =>
      cases r with
      | atom => rfl
      | compound op negated l r => cases op <;> cases negated <;> rfl
    | and | or | iff => rfl
  avoids := avoids_english

end Style

/-! ## Operands -/

namespace Formula

variable {style : Style} {f g : Formula} {cs ds : List Char}

/-- What is written for an operand. -/
def operandText (style : Style) (f : Formula) : List Char :=
  (enclose f.isGroup (f.write style)).toList

theorem operandText_of_not_group (h : f.isGroup = false) :
    f.operandText style = (f.write style).toList := by
  rw [operandText, h]
  rfl

theorem operandText_letter (style : Style) (c : Char) (negated : Bool) (truth : Truth)
    (cs : List Char) :
    (atom (String.ofList [c]) negated truth).operandText style ++ cs =
      style.sign negated ++ c :: cs := by
  cases negated <;> simp [operandText, enclose, isGroup, write, Style.sign]

theorem toList_write_group (style : Style) (op : Connective) (l r : Formula) :
    ((compound op false l r).write style).toList =
      l.operandText style ++
        ' ' :: ((style.joint op r).toList ++ ' ' :: r.operandText style) := by
  simp [write, operandText]

theorem operandText_compound (style : Style) (op : Connective) (negated : Bool) (l r : Formula)
    (cs : List Char) :
    (compound op negated l r).operandText style ++ cs =
      style.sign negated ++ '(' :: (l.operandText style ++
        ' ' :: ((style.joint op r).toList ++ ' ' :: (r.operandText style ++ ')' :: cs))) := by
  have hgroup : (compound op negated l r).isGroup = !negated := rfl
  cases negated <;> simp [operandText, hgroup, enclose, write, Style.sign]

theorem stopsWord_nil : StopsWord [] := fun _ h => nomatch h

theorem stopsWord_cons {c : Char} (hc : c.isAlpha = false) (cs : List Char) :
    StopsWord (c :: cs) := by
  intro d hd
  cases hd
  exact hc

theorem startsOperand_operandText (h : f.IsLettered) (hcs : StopsWord cs) :
    style.StartsOperand (f.operandText style ++ cs) := by
  cases f with
  | atom name negated truth =>
    obtain ⟨c, rfl, hc, _⟩ := exists_letter (h name List.mem_cons_self)
    exact ⟨negated, _, operandText_letter style c negated truth cs, .letter hc hcs⟩
  | compound op negated l r =>
    exact ⟨negated, _, operandText_compound style op negated l r cs, .bracket _⟩

theorem sign_append_inj (hs : style.IsLegible) {negated negated' : Bool} (hcs : StartsUnsigned cs)
    (hds : StartsUnsigned ds) (h : style.sign negated ++ cs = style.sign negated' ++ ds) :
    negated = negated' ∧ cs = ds := by
  cases negated <;> cases negated'
  · exact ⟨rfl, h⟩
  · exact absurd h (hs.negation hcs)
  · exact absurd h.symm (hs.negation hds)
  · exact ⟨rfl, List.append_cancel_left h⟩

/-- An operand can be told from its text, with any text behind it that does not start with a
letter. -/
theorem operandText_append_inj (hs : style.IsLegible) (hf : f.IsLettered) (hg : g.IsLettered)
    (hcs : StopsWord cs) (hds : StopsWord ds)
    (h : f.operandText style ++ cs = g.operandText style ++ ds) :
    f.forget = g.forget ∧ cs = ds := by
  induction f generalizing g cs ds with
  | atom name negated truth =>
    obtain ⟨c, rfl, hc, _⟩ := exists_letter (hf name List.mem_cons_self)
    rw [operandText_letter] at h
    cases g with
    | atom name' negated' truth' =>
      obtain ⟨c', rfl, hc', _⟩ := exists_letter (hg name' List.mem_cons_self)
      rw [operandText_letter] at h
      obtain ⟨rfl, htext⟩ := sign_append_inj hs (.letter hc hcs) (.letter hc' hds) h
      cases htext
      exact ⟨rfl, rfl⟩
    | compound op negated' l' r' =>
      rw [operandText_compound] at h
      obtain ⟨_, htext⟩ := sign_append_inj hs (.letter hc hcs) (.bracket _) h
      cases htext
      contradiction
  | compound op negated l r ihl ihr =>
    rw [operandText_compound] at h
    cases g with
    | atom name' negated' truth' =>
      obtain ⟨c', rfl, hc', _⟩ := exists_letter (hg name' List.mem_cons_self)
      rw [operandText_letter] at h
      obtain ⟨_, htext⟩ := sign_append_inj hs (.bracket _) (.letter hc' hds) h
      cases htext
      contradiction
    | compound op' negated' l' r' =>
      rw [operandText_compound] at h
      obtain ⟨rfl, htext⟩ := sign_append_inj hs (.bracket _) (.bracket _) h
      obtain ⟨hl, hr⟩ := hf.operands
      obtain ⟨hl', hr'⟩ := hg.operands
      have hblank : ∀ cs, StopsWord (' ' :: cs) := stopsWord_cons rfl
      have hclosing : ∀ cs, StopsWord (')' :: cs) := stopsWord_cons rfl
      -- within the brackets: the left operand, the connective, the right operand
      obtain ⟨hleft, hjoint⟩ := ihl hl hl' (hblank _) (hblank _) (List.cons.inj htext).2
      obtain ⟨rfl, hoperand⟩ := hs.joint (startsOperand_operandText hr (hclosing cs))
        (startsOperand_operandText hr' (hclosing ds)) (List.cons.inj hjoint).2
      obtain ⟨hright, hrest⟩ := ihr hr hr' (hclosing cs) (hclosing ds) hoperand
      exact ⟨by rw [forget, forget, hleft, hright], (List.cons.inj hrest).2⟩

/-! ## Whole formulas -/

/-- The text of a group goes on behind its left operand. -/
theorem write_ne_of_isGroup (hs : style.IsLegible) (hf : f.IsLettered) (hg : g.IsLettered)
    (hgroup : f.isGroup = true) (hother : g.isGroup = false) : f.write style ≠ g.write style := by
  intro h
  cases f with
  | atom => cases hgroup
  | compound op negated l r =>
    cases negated with
    | true => cases hgroup
    | false =>
      have htext := congrArg String.toList h
      rw [toList_write_group, ← operandText_of_not_group hother,
        ← List.append_nil (g.operandText style)] at htext
      obtain ⟨_, hrest⟩ := operandText_append_inj hs hf.operands.1 hg (stopsWord_cons rfl _)
        stopsWord_nil htext
      cases hrest

theorem forget_eq_of_write_eq (hs : style.IsLegible) (hf : f.IsLettered) (hg : g.IsLettered)
    (h : f.write style = g.write style) : f.forget = g.forget := by
  have hgroups : f.isGroup = g.isGroup := by
    cases hfgroup : f.isGroup <;> cases hggroup : g.isGroup
    · rfl
    · exact absurd h.symm (write_ne_of_isGroup hs hg hf hggroup hfgroup)
    · exact absurd h (write_ne_of_isGroup hs hf hg hfgroup hggroup)
    · rfl
  have htext : f.operandText style ++ [] = g.operandText style ++ [] := by
    rw [operandText, operandText, hgroups, h]
  exact (operandText_append_inj hs hf hg stopsWord_nil stopsWord_nil htext).1

theorem isGroup_forget (f : Formula) : f.forget.isGroup = f.isGroup := by
  cases f <;> rfl

theorem write_forget (hs : style.IsLegible) (f : Formula) :
    f.forget.write style = f.write style := by
  induction f with
  | atom => rfl
  | compound op negated l r ihl ihr =>
    rw [forget, write, write, ihl, ihr, isGroup_forget, isGroup_forget, hs.forget]

/-- Two formulas of letters are written the same if and only if they differ at most in what is known
of their atoms. -/
theorem write_eq_iff (hs : style.IsLegible) (hf : f.IsLettered) (hg : g.IsLettered) :
    f.write style = g.write style ↔ f.forget = g.forget := by
  refine ⟨forget_eq_of_write_eq hs hf hg, fun h => ?_⟩
  rw [← write_forget hs f, h, write_forget hs g]

end Formula

/-! ## Characters that are not used -/

theorem Formula.not_mem_write {style : Style} {c : Char} (hc : style.Avoids c) {f : Formula}
    (h : f.IsLettered) : c ∉ (f.write style).toList := by
  obtain ⟨hopening, hclosing, hblank⟩ : c ≠ '(' ∧ c ≠ ')' ∧ c ≠ ' ' := by simpa using hc.marks
  have henclose : ∀ inBrackets text, c ∉ String.toList text →
      c ∉ (enclose inBrackets text).toList := by
    intro inBrackets text htext
    cases inBrackets <;> simp [enclose, htext, hopening, hclosing]
  induction f with
  | atom name negated truth =>
    obtain ⟨letter, rfl, hletter, _⟩ := exists_letter (h name List.mem_cons_self)
    have hne : c ≠ letter := by
      rintro rfl
      cases hc.letter.symm.trans hletter
    cases negated <;> simp [write, hc.negation, hne]
  | compound op negated l r ihl ihr =>
    have hl := henclose l.isGroup _ (ihl h.operands.1)
    have hr := henclose r.isGroup _ (ihr h.operands.2)
    cases negated <;> simp [write, hl, hr, hc.negation, hc.joint, hopening, hclosing, hblank]

end Turnstile
