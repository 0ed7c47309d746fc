import Turnstile.Formula.Semantics

/-!
How formulas compare. Proved here, for all formulas:

* `alike_symm`, `alike_trans`: being alike is an equivalence, and so is sharing an entry
  (`sameEntry_symm`, `sameEntry_trans`);
* `alike_negate`, `alike_holding`: negating both sides changes nothing, nor does pinning them down;
* `eval_eq_of_alike`: formulas that are alike have the same value under every valuation, so one may
  stand for the other wherever only truth counts;
* `sameEntry_iff_alike`: only atoms share an entry with a formula they are not like.
-/

namespace Turnstile.Formula

/-! ## What a formula is like -/

theorem alike_atom_iff {name : String} {negated : Bool} {truth : Truth} {g : Formula} :
    (atom name negated truth).alike g = true ↔ ∃ truth', g = atom name negated truth' := by
  cases g with
  | atom name' negated' truth' =>
    simp only [alike, Bool.and_eq_true, beq_iff_eq, atom.injEq]
    constructor
    · rintro ⟨rfl, rfl⟩
      exact ⟨truth', rfl, rfl, rfl⟩
    · rintro ⟨_, rfl, rfl, _⟩
      exact ⟨rfl, rfl⟩
  | compound =>
    refine iff_of_false Bool.false_ne_true ?_
    rintro ⟨_, heq⟩
    cases heq

/-- The operands are alike in their order or, if the connective commutes, crosswise. -/
theorem alike_compound_iff {op : Connective} {negated : Bool} {l r g : Formula} :
    (compound op negated l r).alike g = true ↔
      ∃ l' r', g = compound op negated l' r' ∧
        ((l.alike l' = true ∧ r.alike r' = true) ∨
          (op.commutes = true ∧ l.alike r' = true ∧ r.alike l' = true)) := by
  cases g with
  | atom =>
    refine iff_of_false Bool.false_ne_true ?_
    rintro ⟨_, _, heq, _⟩
    cases heq
  | compound op' negated' l' r' =>
    simp only [alike, Bool.and_eq_true, Bool.or_eq_true, beq_iff_eq, and_assoc]
    constructor
    · rintro ⟨rfl, rfl, h⟩
      exact ⟨l', r', rfl, h⟩
    · rintro ⟨_, _, heq, h⟩
      cases heq
      exact ⟨rfl, rfl, h⟩

/-! ## An equivalence -/

theorem alike_symm {f g : Formula} (h : f.alike g = true) : g.alike f = true := by
  induction f generalizing g with
  | atom name negated truth =>
    obtain ⟨truth', rfl⟩ := alike_atom_iff.mp h
    exact alike_atom_iff.mpr ⟨truth, rfl⟩
  | compound op negated l r ihl ihr =>
    obtain ⟨l', r', rfl, ⟨hl, hr⟩ | ⟨hop, hl, hr⟩⟩ := alike_compound_iff.mp h
    · exact alike_compound_iff.mpr ⟨l, r, rfl, Or.inl ⟨ihl hl, ihr hr⟩⟩
    · exact alike_compound_iff.mpr ⟨l, r, rfl, Or.inr ⟨hop, ihr hr, ihl hl⟩⟩

/-- Two crossings make a straight pairing, so all four ways of pairing compose. -/
theorem alike_trans {f g h : Formula} (hfg : f.alike g = true) (hgh : g.alike h = true) :
    f.alike h = true := by
  induction f generalizing g h with
  | atom name negated truth =>
    obtain ⟨truth', rfl⟩ := alike_atom_iff.mp hfg
    obtain ⟨truth'', rfl⟩ := alike_atom_iff.mp hgh
    exact alike_atom_iff.mpr ⟨truth'', rfl⟩
  | compound op negated l r ihl ihr =>
    obtain ⟨l', r', rfl, pairing⟩ := alike_compound_iff.mp hfg
    obtain ⟨l'', r'', rfl, pairing'⟩ := alike_compound_iff.mp hgh
    refine alike_compound_iff.mpr ⟨l'', r'', rfl, ?_⟩
    rcases pairing with ⟨hl, hr⟩ | ⟨hop, hl, hr⟩
    · rcases pairing' with ⟨hl', hr'⟩ | ⟨hop, hl', hr'⟩
      · exact Or.inl ⟨ihl hl hl', ihr hr hr'⟩
      · exact Or.inr ⟨hop, ihl hl hl', ihr hr hr'⟩
    · rcases pairing' with ⟨hl', hr'⟩ | ⟨_, hl', hr'⟩
      · exact Or.inr ⟨hop, ihl hl hr', ihr hr hl'⟩
      · exact Or.inl ⟨ihl hl hr', ihr hr hl'⟩

theorem alike_negate {f g : Formula} (h : f.alike g = true) : f.negate.alike g.negate = true := by
  cases f with
  | atom name negated truth =>
    obtain ⟨truth', rfl⟩ := alike_atom_iff.mp h
    exact alike_atom_iff.mpr ⟨truth', rfl⟩
  | compound op negated l r =>
    obtain ⟨l', r', rfl, pairing⟩ := alike_compound_iff.mp h
    exact alike_compound_iff.mpr ⟨l', r', rfl, pairing⟩

theorem alike_congr {f f' g g' : Formula} (hf : f.alike f' = true) (hg : g.alike g' = true) :
    f.alike g = f'.alike g' :=
  Bool.eq_iff_iff.mpr ⟨fun h => alike_trans (alike_symm hf) (alike_trans h hg),
    fun h => alike_trans hf (alike_trans h (alike_symm hg))⟩

theorem alike_holding {f g : Formula} (h : f.alike g = true) :
    f.holding.alike g.holding = true := by
  cases f with
  | atom name negated truth =>
    obtain ⟨truth', rfl⟩ := alike_atom_iff.mp h
    exact alike_refl _
  | compound op negated l r =>
    obtain ⟨l', r', rfl, _⟩ := alike_compound_iff.mp h
    exact h

theorem holding_alike (f : Formula) : f.holding.alike f = true := by
  cases f with
  | atom name negated truth => exact alike_atom_iff.mpr ⟨truth, rfl⟩
  | compound => exact alike_refl _

/-! ## Compound formulas, operand by operand -/

theorem alike_compound {op : Connective} {negated : Bool} {l r l' r' : Formula}
    (hl : l.alike l' = true) (hr : r.alike r' = true) :
    (compound op negated l r).alike (compound op negated l' r') = true :=
  alike_compound_iff.mpr ⟨l', r', rfl, Or.inl ⟨hl, hr⟩⟩

theorem alike_swap {op : Connective} (hop : op.commutes = true) {negated : Bool}
    {l r l' r' : Formula} (hl : l.alike l' = true) (hr : r.alike r' = true) :
    (compound op negated l r).alike (compound op negated r' l') = true :=
  alike_compound_iff.mpr ⟨r', l', rfl, Or.inr ⟨hop, hl, hr⟩⟩

/-- Where the connective does not commute, the operands are alike in their order. -/
theorem alike_ordered_iff {op : Connective} (hop : op.commutes = false) {negated : Bool}
    {l r g : Formula} :
    (compound op negated l r).alike g = true ↔
      ∃ l' r', g = compound op negated l' r' ∧ l.alike l' = true ∧ r.alike r' = true := by
  rw [alike_compound_iff]
  simp [hop]

theorem depth_eq_of_alike {f g : Formula} (h : f.alike g = true) : g.depth = f.depth := by
  induction f generalizing g with
  | atom =>
    obtain ⟨truth, rfl⟩ := alike_atom_iff.mp h
    rfl
  | compound op negated l r ihl ihr =>
    obtain ⟨l', r', rfl, ⟨hl, hr⟩ | ⟨_, hl, hr⟩⟩ := alike_compound_iff.mp h
    · rw [depth, depth, ihl hl, ihr hr]
    · rw [depth, depth, ihl hl, ihr hr, Nat.max_comm]

theorem not_alike_negate (f : Formula) : f.alike f.negate = false := by
  cases f <;> simp [alike, negate]

/-! ## Truth -/

@[simp] theorem eval_negate (v : Valuation) (f : Formula) : f.negate.eval v = !f.eval v := by
  cases f <;> simp [negate, eval]

@[simp] theorem eval_holding (v : Valuation) (f : Formula) : f.holding.eval v = f.eval v := by
  cases f <;> rfl

theorem eval_conj (v : Valuation) (a b : Formula) :
    (conj a b).eval v = true ↔ a.eval v = true ∧ b.eval v = true := by
  simp [eval, Connective.eval]

theorem eval_disj (v : Valuation) (a b : Formula) :
    (disj a b).eval v = true ↔ a.eval v = true ∨ b.eval v = true := by
  simp [eval, Connective.eval]

theorem eval_imp (v : Valuation) (a b : Formula) :
    (imp a b).eval v = true ↔ (a.eval v = true → b.eval v = true) := by
  cases ha : a.eval v <;> simp [eval, Connective.eval, ha]

theorem eval_equiv (v : Valuation) (a b : Formula) :
    (equiv a b).eval v = true ↔ a.eval v = b.eval v := by
  simp [eval, Connective.eval]

theorem eval_comm {op : Connective} (h : op.commutes = true) (a b : Bool) :
    op.eval a b = op.eval b a := by
  cases op with
  | and => exact Bool.and_comm a b
  | or => exact Bool.or_comm a b
  | implies | iff => cases h

theorem eval_eq_of_alike (v : Valuation) {f g : Formula} (h : f.alike g = true) :
    f.eval v = g.eval v := by
  induction f generalizing g with
  | atom name negated truth =>
    obtain ⟨truth', rfl⟩ := alike_atom_iff.mp h
    rfl
  | compound op negated l r ihl ihr =>
    obtain ⟨l', r', rfl, ⟨hl, hr⟩ | ⟨hop, hl, hr⟩⟩ := alike_compound_iff.mp h
    · simp only [eval, ihl hl, ihr hr]
    · simp only [eval, ihl hl, ihr hr, eval_comm hop (r'.eval v)]

/-! ## Sharing an entry -/

theorem sameEntry_of_alike {f g : Formula} (h : f.alike g = true) : f.sameEntry g = true := by
  cases f with
  | atom name negated truth =>
    obtain ⟨truth', rfl⟩ := alike_atom_iff.mp h
    simp [sameEntry]
  | compound op negated l r => exact h

@[simp] theorem sameEntry_refl (f : Formula) : f.sameEntry f = true :=
  sameEntry_of_alike (alike_refl f)

theorem sameEntry_atom_iff {name : String} {negated : Bool} {truth : Truth} {g : Formula} :
    g.sameEntry (atom name negated truth) = true ↔
      ∃ negated' truth', g = atom name negated' truth' := by
  cases g with
  | atom name' negated' truth' =>
    simp only [sameEntry, beq_iff_eq, atom.injEq]
    constructor
    · rintro rfl
      exact ⟨negated', truth', rfl, rfl, rfl⟩
    · rintro ⟨_, _, h, _, _⟩
      exact h
  | compound => simp [sameEntry, alike]

theorem sameEntry_iff_alike {f g : Formula} (h : g.atomName? = none) :
    f.sameEntry g = true ↔ f.alike g = true := by
  cases g with
  | atom => simp [atomName?] at h
  | compound => cases f <;> simp [sameEntry]

theorem sameEntry_symm {f g : Formula} (h : f.sameEntry g = true) : g.sameEntry f = true := by
  cases f with
  | atom name negated truth =>
    cases g with
    | atom name' negated' truth' =>
      simp only [sameEntry, beq_iff_eq] at h ⊢
      exact h.symm
    | compound => simp [sameEntry, alike] at h
  | compound op negated l r => exact sameEntry_of_alike (alike_symm h)

theorem sameEntry_trans {f g h : Formula} (hfg : f.sameEntry g = true)
    (hgh : g.sameEntry h = true) : f.sameEntry h = true := by
  cases h with
  | atom name negated truth =>
    obtain ⟨_, _, rfl⟩ := sameEntry_atom_iff.mp hgh
    obtain ⟨_, _, rfl⟩ := sameEntry_atom_iff.mp hfg
    simp [sameEntry]
  | compound op negated l r =>
    have hgh := (sameEntry_iff_alike rfl).mp hgh
    obtain ⟨l', r', rfl, _⟩ := alike_compound_iff.mp (alike_symm hgh)
    exact sameEntry_of_alike (alike_trans ((sameEntry_iff_alike rfl).mp hfg) hgh)

@[simp] theorem sameEntry_holding (f g : Formula) : f.sameEntry g.holding = f.sameEntry g := by
  cases f <;> cases g <;> rfl

end Turnstile.Formula
