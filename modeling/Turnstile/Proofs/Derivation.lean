import Turnstile.Proofs.Certificate
import Turnstile.Proofs.Congruence

/-!
Derivations by the rules, apart from any store, and the proofs that are such derivations.

* `Rule.conclusion_of_trivial`: a trivial implication is of no use as a premise of a two-premise
  rule, for what the rule concludes is there without it, unless it is detached, that is, matched as
  a whole by Modus Ponens or Modus Tollens;
* `Derives`: what the rules give from premises without detaching a trivial implication. It is true
  wherever the premises are (`Derives.eval`);
* `Proof.Certifies.derives`: the lines of a proof that detaches no trivial implication are derived.
-/

namespace Turnstile

open Formula Inference

/-! ## Trivial premises -/

/-- Whether the rule takes its first premise as a whole, as the antecedent of the second or as the
negation of its consequent. -/
def Rule.detaches : Rule → Bool
  | .modusPonens | .modusTollens => true
  | _ => false

theorem Formula.alike_of_isTrivial {negated : Bool} {a b : Formula}
    (h : (compound .implies negated a b).isTrivial = true) : a.alike b = true := h

/-- What a rule concludes with a trivial implication among its premises is like a premise, or like
the consequent of a premise `A → ¬A`. -/
theorem Rule.conclusion_of_trivial {rule : Rule} {p q c : Formula} (hp : p.holding = p)
    (hc : c ∈ rule.apply p (some q)) (htrivial : p.isTrivial = true ∨ q.isTrivial = true)
    (hdetached : rule.detaches = true → p.isTrivial = false) :
    c.alike p = true ∨ c.alike q = true ∨ ∃ a b, (p = imp a b ∨ q = imp a b) ∧
      a.negate.alike b = true ∧ c.alike b = true := by
  obtain ⟨hfits, hc⟩ := mem_apply.mp hc
  cases rule <;> simp only [conclude] at hc
  case modusPonens =>
    obtain ⟨a, b, rfl, _, ha, rfl⟩ := mem_modusPonens.mp hc
    rcases htrivial with hfirst | hab
    · rw [hdetached rfl] at hfirst
      cases hfirst
    · have hb := alike_symm (alike_of_isTrivial hab)
      exact Or.inl (alike_trans (holding_alike b) (alike_trans hb ha))
  case modusTollens =>
    obtain ⟨a, b, rfl, hrefutes, rfl⟩ := mem_modusTollens.mp hc
    rw [refutes_eq_alike hp] at hrefutes
    rcases htrivial with hfirst | hab
    · rw [hdetached rfl] at hfirst
      cases hfirst
    · have hnegated := alike_negate (alike_of_isTrivial hab)
      exact Or.inl (alike_trans (holding_alike _) (alike_trans hnegated (alike_symm hrefutes)))
  case hypotheticalSyllogism =>
    obtain ⟨negated, a, b, b', d, rfl, rfl, hb, _, rfl⟩ := mem_hypotheticalSyllogism.mp hc
    rcases htrivial with hab | hbd
    · exact Or.inr (Or.inl (alike_compound (alike_trans (alike_of_isTrivial hab) hb)
        (alike_refl d)))
    · have hdb := alike_symm (alike_trans hb (alike_of_isTrivial hbd))
      exact Or.inl (alike_compound (alike_refl a) hdb)
  case conjunctionIntroduction =>
    obtain ⟨_, _, _, _, _, _, rfl, rfl, _⟩ := mem_conjunctionIntroduction.mp hc
    rcases htrivial with h | h <;> cases h
  case proofByCases =>
    obtain ⟨a, b, a', b', rfl, rfl, hb, ha, rfl⟩ := mem_proofByCases.mp hc
    rcases htrivial with hab | hab
    · -- the other premise goes from the negation of the consequent to the consequent
      refine Or.inr (Or.inr ⟨a', b', Or.inr rfl, ?_, alike_trans (holding_alike b) hb⟩)
      exact alike_trans (alike_symm ha) (alike_trans (alike_of_isTrivial hab) hb)
    · have hnegated := alike_negate ha
      rw [negate_negate] at hnegated
      refine Or.inr (Or.inr ⟨a, b, Or.inl rfl, ?_, holding_alike b⟩)
      exact alike_trans hnegated (alike_trans (alike_of_isTrivial hab) (alike_symm hb))
  case biconditionalIntroduction =>
    -- the rule is not for two implications between formulas that are alike
    obtain ⟨a, b, a', b', rfl, rfl, ha, hb, hdiffer, rfl⟩ := mem_biconditionalIntroduction.mp hc
    rcases htrivial with hab | hab
    · rw [alike_of_isTrivial hab] at hdiffer
      cases hdiffer
    · have hba := alike_trans hb (alike_of_isTrivial hab)
      rw [alike_trans ha (alike_symm hba)] at hdiffer
      cases hdiffer
  -- the other rules take one premise
  all_goals cases hfits

/-! ## Derivations -/

/-- What the rules give from premises. Two premises of a rule are never like each other, and no
trivial implication is detached. -/
inductive Derives (premises : Formula → Prop) : Formula → Prop
  | premise {f : Formula} (h : premises f) : Derives premises f.holding
  | one {rule : Rule} {p c : Formula} (hp : Derives premises p) (hc : c ∈ rule.apply p none) :
      Derives premises c
  | two {rule : Rule} {p q c : Formula} (hp : Derives premises p) (hq : Derives premises q)
      (hdistinct : p.sameEntry q = false)
      (hdetached : rule.detaches = true → p.isTrivial = false)
      (hc : c ∈ rule.apply p (some q)) : Derives premises c

namespace Derives

variable {premises : Formula → Prop} {f : Formula}

theorem holding (h : Derives premises f) : f.holding = f := by
  cases h with
  | premise => exact holding_holding _
  | one _ hc => exact Rule.holding_of_mem_apply hc
  | two _ _ _ _ hc => exact Rule.holding_of_mem_apply hc

theorem eval {v : Valuation} (hpremises : ∀ g, premises g → g.eval v = true)
    (h : Derives premises f) : f.eval v = true := by
  induction h with
  | premise h => exact (eval_holding v _).trans (hpremises _ h)
  | one hp hc ih =>
    refine Rule.eval_of_mem_apply (isFaithful_of_holding hp.holding) ih (fun g hg => ?_) hc
    cases hg
  | two hp _ _ _ hc ihp ihq =>
    refine Rule.eval_of_mem_apply (isFaithful_of_holding hp.holding) ihp (fun g hg => ?_) hc
    cases hg
    exact ihq

end Derives

/-! ## Proofs as derivations -/

/-- The number of the line that the citation detaches. -/
def Citation.detached? : Citation → Option Nat
  | .inference rule (first :: _) => if rule.detaches then some first else none
  | _ => none

namespace Proof

/-- No line comes by detaching a trivial implication. -/
def AvoidsTrivial (p : Proof) : Prop :=
  ∀ line ∈ p.lines, ∀ premise ∈ p.lines, line.citation.detached? = some premise.number →
    premise.formula.isTrivial = false

instance (p : Proof) : Decidable p.AvoidsTrivial :=
  inferInstanceAs (Decidable (∀ line ∈ p.lines, ∀ premise ∈ p.lines, _ → _))

variable {p : Proof} {hypotheses : List Formula} {conclusion : Formula}

/-- Lines with different numbers do not share an entry. -/
theorem Certifies.sameEntry_eq_false (h : p.Certifies hypotheses conclusion) {l m : Line}
    (hl : l ∈ p.lines) (hm : m ∈ p.lines) (hne : l.number ≠ m.number) :
    l.formula.sameEntry m.formula = false := by
  obtain ⟨i, hi⟩ := List.mem_iff_getElem?.mp hl
  obtain ⟨j, hj⟩ := List.mem_iff_getElem?.mp hm
  refine h.distinct hi hj fun hij => hne ?_
  rw [h.numbered hi, h.numbered hj, hij]

theorem Certifies.derives (h : p.Certifies hypotheses conclusion) (havoids : p.AvoidsTrivial) :
    ∀ line ∈ p.lines,
      Derives (fun f => f ∈ hypotheses ∨ ∃ a ∈ p.assumptions, f = a.assumed) line.formula := by
  -- a line cites lines with smaller numbers
  suffices hnumber : ∀ n, ∀ line ∈ p.lines, line.number = n →
      Derives (fun f => f ∈ hypotheses ∨ ∃ a ∈ p.assumptions, f = a.assumed) line.formula from
    fun line hline => hnumber _ line hline rfl
  intro n
  induction n using Nat.strongRecOn with
  | ind n ih =>
    rintro line hline rfl
    cases hcitation : line.citation with
    | hypothesis =>
      obtain ⟨f, hf, heq⟩ := h.hypothesis line hline hcitation
      rw [heq]
      exact .premise (Or.inl hf)
    | assumption =>
      obtain ⟨a, ha, heq⟩ := h.assumption line hline hcitation
      rw [heq]
      exact .premise (Or.inr ⟨a, ha, rfl⟩)
    | inference rule cited =>
      obtain ⟨_, hnodup, hbefore, premises, hsays, hc⟩ :=
        h.inference line hline rule cited hcitation
      match premises, hsays, hc with
      | [_], .cons (a := i) ⟨l, hl, hi, rfl⟩ .nil, hc =>
        exact .one (ih i (hbefore i List.mem_cons_self) l hl hi) hc
      | [_, _], .cons (a := i) ⟨l, hl, hi, rfl⟩ (.cons (a := j) ⟨m, hm, hj, rfl⟩ .nil), hc =>
        have hderived := ih i (hbefore i List.mem_cons_self) l hl hi
        have hderived' := ih j (hbefore j (List.mem_cons_of_mem i List.mem_cons_self)) m hm hj
        have hne : l.number ≠ m.number := by
          rw [hi, hj]
          exact fun heq => (List.nodup_cons.mp hnodup).1 (List.mem_singleton.mpr heq)
        refine .two hderived hderived' (h.sameEntry_eq_false hl hm hne) (fun hdetaches => ?_) hc
        refine havoids line hline l hl ?_
        rw [hcitation, Citation.detached?, if_pos hdetaches, hi]

end Proof

end Turnstile
