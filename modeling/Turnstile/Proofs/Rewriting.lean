import Turnstile.Proofs.Congruence

/-!
The rules that rewrite a formula lose nothing: what they conclude can be turned back by the same
rule, up to likeness. A rule that is sound in both directions gives an equivalent formula.

* one lemma for each of these rules on the way back. That for distribution goes through
  `Distributes` and `Factors`, which undo each other (`Distributes.factors`, `Factors.distributes`);
* `Rule.exists_mem_apply_back`, `Rule.eval_eq_of_mem_apply`: all of them at once. The second comes
  from the first and soundness, with no second look at the rules;
* `Rule.rewriting_invertible`: the two together.
-/

namespace Turnstile

/-- The rules that restate a premise as a whole. -/
def Rule.isRewriting : Rule → Bool
  | .conditionalDisjunction | .contraposition | .deMorgan | .distribution => true
  | _ => false

namespace Inference

open Formula

variable {f g : Formula}

/-! ## The way back -/

/-- A disjunction comes back with its operands exchanged if it was turned round. -/
theorem back_conditionalDisjunction (hg : g ∈ conditionalDisjunction f) :
    ∃ f' ∈ conditionalDisjunction g, f.alike f' = true := by
  simp only [mem_conditionalDisjunction] at hg ⊢
  rcases hg with ⟨a, b, rfl, rfl⟩ | ⟨a, b, rfl, rfl | rfl⟩
  · exact ⟨imp a b, Or.inr ⟨_, _, rfl, Or.inl (by rw [negate_negate])⟩, alike_refl _⟩
  · exact ⟨disj a b, Or.inl ⟨_, _, rfl, by rw [negate_negate]⟩, alike_refl _⟩
  · exact ⟨disj b a, Or.inl ⟨_, _, rfl, by rw [negate_negate]⟩,
      alike_swap rfl (alike_refl a) (alike_refl b)⟩

theorem back_contraposition (hg : g ∈ contraposition f) : f ∈ contraposition g := by
  obtain ⟨a, b, rfl, rfl⟩ := mem_contraposition.mp hg
  refine mem_contraposition.mpr ⟨_, _, rfl, ?_⟩
  rw [negate_negate, negate_negate]

theorem back_deMorgan (hg : g ∈ deMorgan f) : f ∈ deMorgan g := by
  obtain ⟨negated, a, b, ⟨rfl, rfl⟩ | ⟨rfl, rfl⟩⟩ := mem_deMorgan.mp hg
  · refine mem_deMorgan.mpr ⟨_, _, _, Or.inr ⟨rfl, ?_⟩⟩
    rw [negate_negate, negate_negate, Bool.not_not]
  · refine mem_deMorgan.mpr ⟨_, _, _, Or.inl ⟨rfl, ?_⟩⟩
    rw [negate_negate, negate_negate, Bool.not_not]

/-- What was spread over a conjunction can be taken out again. -/
theorem Distributes.factors {p q : Formula} (h : Distributes p q g) :
    ∃ x y, g.alike (conj x y) = true ∧ Factors x y (disj p q) := by
  obtain ⟨a, b, hconj, hg⟩ := h
  refine ⟨disj a q, disj b q, hg, q, a, b, ?_, ?_, alike_compound hconj (alike_refl q)⟩
  · exact alike_swap rfl (alike_refl a) (alike_refl q)
  · exact alike_swap rfl (alike_refl b) (alike_refl q)

/-- What was taken out can be spread over the rest again. -/
theorem Factors.distributes {p q : Formula} (h : Factors p q g) :
    ∃ x y, g.alike (disj x y) = true ∧ Distributes x y (conj p q) := by
  obtain ⟨shared, rest, rest', hfirst, hsecond, hg⟩ := h
  have turned : ∀ x : Formula, (disj shared x).alike (disj x shared) = true := fun x =>
    alike_swap rfl (alike_refl shared) (alike_refl x)
  exact ⟨conj rest rest', shared, hg, rest, rest', alike_refl _,
    alike_compound (alike_trans hfirst (turned rest)) (alike_trans hsecond (turned rest'))⟩

/-- A way back from a formula like `g` is one from `g`. -/
theorem back_distribution_of_alike {x : Formula} (hx : g.alike x = true)
    (hback : ∃ f' ∈ distribution x, f.alike f' = true) :
    ∃ f' ∈ distribution g, f.alike f' = true := by
  obtain ⟨f', hf', halike⟩ := hback
  obtain ⟨f'', hf'', halike'⟩ := exists_mem_distribution (alike_symm hx) hf'
  exact ⟨f'', hf'', alike_trans halike halike'⟩

theorem Distributes.back {p q : Formula} (h : Distributes p q g) :
    ∃ f' ∈ distribution g, (disj p q).alike f' = true := by
  obtain ⟨x, y, hx, hfactors⟩ := h.factors
  exact back_distribution_of_alike hx (exists_mem_factor.mpr hfactors)

theorem Factors.back {p q : Formula} (h : Factors p q g) :
    ∃ f' ∈ distribution g, (conj p q).alike f' = true := by
  obtain ⟨x, y, hx, hdistributes⟩ := h.distributes
  exact back_distribution_of_alike hx (exists_mem_distribution_disj.mpr (Or.inl hdistributes))

/-- Either way of the rule undoes the other, whichever operands were chosen. -/
theorem back_distribution (hg : g ∈ distribution f) :
    ∃ f' ∈ distribution g, f.alike f' = true := by
  have hself : ∃ g' ∈ distribution f, g.alike g' = true := ⟨g, hg, alike_refl g⟩
  rcases mem_distribution.mp hg with ⟨p, q, rfl, _⟩ | ⟨p, q, rfl, _⟩
  · rcases exists_mem_distribution_disj.mp hself with h | h
    · exact h.back
    · -- the right operand was spread, so the disjunction comes back turned round
      obtain ⟨f', hf', halike⟩ := h.back
      have hturned : (disj p q).alike (disj q p) = true :=
        alike_swap rfl (alike_refl p) (alike_refl q)
      exact ⟨f', hf', alike_trans hturned halike⟩
  · exact (exists_mem_factor.mp hself).back

end Inference

/-! ## All rewriting rules -/

namespace Rule

open Formula Inference

variable {rule : Rule} {f g : Formula}

theorem exists_mem_apply_back (hrule : rule.isRewriting = true) (hg : g ∈ rule.apply f none) :
    ∃ f' ∈ rule.apply g none, f'.alike f = true := by
  cases hshape : rule.shape with
  | two first second => cases rule <;> cases hrule <;> cases hshape
  | one test =>
    have hg := (mem_apply.mp hg).2
    obtain ⟨f', hf', halike⟩ : ∃ f' ∈ rule.conclude g none, f.alike f' = true := by
      cases rule <;> cases hrule <;> simp only [conclude] at hg ⊢
      case conditionalDisjunction => exact back_conditionalDisjunction hg
      case contraposition => exact ⟨f, back_contraposition hg, alike_refl f⟩
      case deMorgan => exact ⟨f, back_deMorgan hg, alike_refl f⟩
      case distribution => exact back_distribution hg
    exact ⟨f', mem_apply.mpr ⟨fits_of_mem_conclude_one hshape hf', hf'⟩, alike_symm halike⟩

/-- No atom is rewritten, so stored truths play no part. -/
theorem isFaithful_of_mem_apply (hrule : rule.isRewriting = true) (hg : g ∈ rule.apply f none) :
    f.IsFaithful := by
  have hfits := (mem_apply.mp hg).1
  cases f with
  | atom name negated truth => cases rule <;> cases hrule <;> cases hfits
  | compound op negated l r => trivial

theorem eval_eq_of_mem_apply (hrule : rule.isRewriting = true) (hg : g ∈ rule.apply f none)
    (v : Valuation) : g.eval v = f.eval v := by
  have sound : ∀ {p c : Formula}, c ∈ rule.apply p none → p.eval v = true → c.eval v = true :=
    fun hc hp => eval_of_mem_apply (isFaithful_of_mem_apply hrule hc) hp
      (fun _ h => absurd h (Option.not_mem_none _)) hc
  obtain ⟨f', hf', halike⟩ := exists_mem_apply_back hrule hg
  refine Bool.eq_iff_iff.mpr ⟨fun htrue => ?_, sound hg⟩
  rw [← eval_eq_of_alike v halike]
  exact sound hf' htrue

/-- What a rewriting rule concludes is equivalent to the premise, and the rule leads back from it to
a formula like the premise. -/
theorem rewriting_invertible (rule : Rule) (hrule : rule.isRewriting = true) (f g : Formula)
    (hg : g ∈ rule.apply f none) :
    (∀ v : Valuation, g.eval v = f.eval v) ∧ ∃ f' ∈ rule.apply g none, f'.alike f = true :=
  ⟨eval_eq_of_mem_apply hrule hg, exists_mem_apply_back hrule hg⟩

/-- The operand taken out is itself a conjunction, commuted in its two places, so that on the way
back there is a choice of what to distribute. -/
theorem rewriting_invertible_factored :
    let pq : Formula := .conj (.var "P") (.var "Q")
    let qp : Formula := .conj (.var "Q") (.var "P")
    let f : Formula := .conj (.disj pq (.var "A")) (.disj (.var "B") qp)
    let g : Formula := .disj (.conj (.var "A") (.var "B")) pq
    g ∈ distribution.apply f none ∧ (distribution.apply g none).length = 2 ∧
      (∀ v : Valuation, g.eval v = f.eval v) ∧
      ∃ f' ∈ distribution.apply g none, f'.alike f = true := by
  intro pq qp f g
  have hg : g ∈ distribution.apply f none := by decide
  exact ⟨hg, by decide, rewriting_invertible .distribution rfl f g hg⟩

end Rule

end Turnstile
