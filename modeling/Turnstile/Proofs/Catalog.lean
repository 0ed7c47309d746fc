import Turnstile.Proofs.Congruence

/-!
What holds of all the rules in the catalog, whatever their premises.

* `Formula.UsesOnly`: all atoms of a formula are allowed ones. `Rule.usesOnly_of_mem_conclude`: no
  rule brings in an atom that its premises do not have;
* `Rule.apply_sound`: a conclusion is true wherever the premises are, has no atoms but theirs, and
  stores the truth that its sign gives it, if it is an atom;
* `Rule.apply_alike`: premises that are alike give conclusions that are alike, in both directions.
-/

namespace Turnstile

namespace Formula

variable {allowed : String → Prop}

/-- All atoms of the formula are allowed ones. -/
def UsesOnly (allowed : String → Prop) (f : Formula) : Prop := ∀ name ∈ f.names, allowed name

@[simp] theorem usesOnly_compound {op : Connective} {negated : Bool} {l r : Formula} :
    (compound op negated l r).UsesOnly allowed ↔ l.UsesOnly allowed ∧ r.UsesOnly allowed := by
  simp only [UsesOnly, names, List.mem_append, or_imp, forall_and]

@[simp] theorem usesOnly_negate {f : Formula} :
    f.negate.UsesOnly allowed ↔ f.UsesOnly allowed := by
  cases f <;> rfl

@[simp] theorem usesOnly_holding {f : Formula} :
    f.holding.UsesOnly allowed ↔ f.UsesOnly allowed := by
  cases f <;> rfl

end Formula

namespace Rule

open Formula Inference

variable {rule : Rule} {f f' g c : Formula} {g? g'? : Option Formula}

/-! ## Atoms -/

theorem usesOnly_of_mem_factor {allowed : String → Prop} (hf : f.UsesOnly allowed)
    (hg : g.UsesOnly allowed) (hc : c ∈ factor f g) : c.UsesOnly allowed := by
  obtain ⟨shared, rest, shared', rest', hfirst, hsecond, _, rfl⟩ := mem_factor hc
  have operands : ∀ {p x y : Formula}, (p = disj x y ∨ p = disj y x) → p.UsesOnly allowed →
      x.UsesOnly allowed ∧ y.UsesOnly allowed := by
    rintro p x y (rfl | rfl) h
    · exact usesOnly_compound.mp h
    · exact (usesOnly_compound.mp h).symm
  obtain ⟨hshared, hrest⟩ := operands hfirst hf
  obtain ⟨_, hrest'⟩ := operands hsecond hg
  exact usesOnly_compound.mpr ⟨usesOnly_compound.mpr ⟨hrest, hrest'⟩, hshared⟩

/-- Every conclusion is put together from operands of the premises. -/
theorem usesOnly_of_mem_conclude {allowed : String → Prop} (hf : f.UsesOnly allowed)
    (hg : ∀ g ∈ g?, g.UsesOnly allowed) (hc : c ∈ rule.conclude f g?) : c.UsesOnly allowed := by
  cases rule <;> cases g? <;> simp only [conclude, List.not_mem_nil] at hc
  case modusPonens.some g =>
    obtain ⟨a, b, rfl, _, _, rfl⟩ := mem_modusPonens.mp hc
    exact usesOnly_holding.mpr (usesOnly_compound.mp (hg _ rfl)).2
  case modusTollens.some g =>
    obtain ⟨a, b, rfl, _, rfl⟩ := mem_modusTollens.mp hc
    exact usesOnly_holding.mpr (usesOnly_negate.mpr (usesOnly_compound.mp (hg _ rfl)).1)
  case hypotheticalSyllogism.some g =>
    obtain ⟨negated, a, b, b', d, rfl, rfl, _, _, rfl⟩ := mem_hypotheticalSyllogism.mp hc
    exact usesOnly_compound.mpr ⟨(usesOnly_compound.mp hf).1, (usesOnly_compound.mp (hg _ rfl)).2⟩
  case conjunctionIntroduction.some g =>
    obtain ⟨_, _, _, _, _, _, _, _, _, rfl⟩ := mem_conjunctionIntroduction.mp hc
    exact usesOnly_compound.mpr ⟨hf, hg _ rfl⟩
  case proofByCases.some g =>
    obtain ⟨a, b, a', b', rfl, _, _, _, rfl⟩ := mem_proofByCases.mp hc
    exact usesOnly_holding.mpr (usesOnly_compound.mp hf).2
  case biconditionalIntroduction.some g =>
    obtain ⟨a, b, a', b', rfl, _, _, _, _, rfl⟩ := mem_biconditionalIntroduction.mp hc
    exact usesOnly_compound.mpr (usesOnly_compound.mp hf)
  case conditionalDisjunction.none | conditionalDisjunction.some =>
    rcases mem_conditionalDisjunction.mp hc with ⟨a, b, rfl, rfl⟩ | ⟨a, b, rfl, rfl | rfl⟩
    all_goals simpa [imp, disj, and_comm] using hf
  case contraposition.none | contraposition.some =>
    obtain ⟨a, b, rfl, rfl⟩ := mem_contraposition.mp hc
    simpa [imp, and_comm] using hf
  case exportation.none | exportation.some =>
    obtain ⟨a, b, d, rfl, rfl | rfl⟩ := mem_exportation.mp hc
    all_goals simpa [imp, conj, and_assoc, and_left_comm] using hf
  case conjunctionElimination.none | conjunctionElimination.some =>
    obtain ⟨a, b, rfl, rfl | rfl⟩ := mem_conjunctionElimination.mp hc
    · exact usesOnly_holding.mpr (usesOnly_compound.mp hf).1
    · exact usesOnly_holding.mpr (usesOnly_compound.mp hf).2
  case deMorgan.none | deMorgan.some =>
    obtain ⟨negated, a, b, ⟨rfl, rfl⟩ | ⟨rfl, rfl⟩⟩ := mem_deMorgan.mp hc
    all_goals simpa using hf
  case distribution.none | distribution.some =>
    rcases mem_distribution.mp hc with ⟨a, b, rfl, hc | hc⟩ | ⟨a, b, rfl, hc⟩
    · obtain ⟨a₁, a₂, rfl, rfl⟩ := mem_distributeLeft.mp hc
      simp only [conj, disj, usesOnly_compound] at hf ⊢
      exact ⟨⟨hf.1.1, hf.2⟩, hf.1.2, hf.2⟩
    · obtain ⟨b₁, b₂, rfl, rfl⟩ := mem_distributeRight.mp hc
      simp only [conj, disj, usesOnly_compound] at hf ⊢
      exact ⟨⟨hf.1, hf.2.1⟩, hf.1, hf.2.2⟩
    · exact usesOnly_of_mem_factor (usesOnly_compound.mp hf).1 (usesOnly_compound.mp hf).2 hc
  case selfReference.none | selfReference.some =>
    obtain ⟨a, b, rfl, _, rfl⟩ := mem_selfReference.mp hc
    exact usesOnly_holding.mpr (usesOnly_compound.mp hf).1
  case biconditionalElimination.none | biconditionalElimination.some =>
    obtain ⟨a, b, rfl, rfl | rfl⟩ := mem_biconditionalElimination.mp hc
    all_goals simpa [imp, equiv, and_comm] using hf

/-! ## Soundness -/

/-- If the first premise is an atom, it must not store a wrong truth. What an atom in the second
place stores does not matter. -/
theorem apply_sound (rule : Rule) {f c : Formula} {g? : Option Formula} (faithful : f.IsFaithful)
    (hc : c ∈ rule.apply f g?) :
    (∀ v : Valuation, f.eval v = true → (∀ g ∈ g?, g.eval v = true) → c.eval v = true) ∧
      (∀ name ∈ c.names, name ∈ f.names ∨ ∃ g ∈ g?, name ∈ g.names) ∧
      (∀ name negated truth, c = .atom name negated truth → truth = some (!negated)) := by
  refine ⟨fun v hf hg => eval_of_mem_apply faithful hf hg hc, ?_, ?_⟩
  · refine usesOnly_of_mem_conclude (fun name hname => Or.inl hname) ?_ (mem_apply.mp hc).2
    intro g hg name hname
    exact Or.inr ⟨g, hg, hname⟩
  · rintro name negated truth rfl
    have hholding := holding_of_mem_apply hc
    exact (atom.inj hholding).2.2.symm

/-- An atom known to be false refutes the consequent, which stores nothing. -/
theorem apply_sound_refuted :
    let fact : Formula := .atom "B" true (some false)
    let implication : Formula := .imp (.atom "A" true (some true)) (.var "B")
    let conclusion : Formula := .atom "A" false (some true)
    fact.IsFaithful ∧ conclusion ∈ modusTollens.apply fact (some implication) ∧
      (∀ v : Valuation, fact.eval v = true → implication.eval v = true →
        conclusion.eval v = true) := by
  intro fact implication conclusion
  have hfaithful : fact.IsFaithful := Or.inr rfl
  have hc : conclusion ∈ modusTollens.apply fact (some implication) := by decide
  refine ⟨hfaithful, hc, fun v hfact himplication => ?_⟩
  refine (apply_sound .modusTollens hfaithful hc).1 v hfact ?_
  rintro g ⟨⟩
  exact himplication

/-! ## Premises that are alike -/

theorem exists_mem_apply (hf : f.alike f' = true)
    (hg : Option.Rel (fun g g' => g.alike g' = true) g? g'?) (hfh : f.holding = f)
    (hfh' : f'.holding = f') (hgh' : ∀ g ∈ g'?, g.holding = g) (hc : c ∈ rule.apply f g?) :
    ∃ c' ∈ rule.apply f' g'?, c.alike c' = true := by
  cases hg with
  | none => exact exists_mem_apply_one hf hc
  | some hg => exact exists_mem_apply_two hfh hfh' (hgh' _ rfl) hf hg hc

/-- Of formulas that are alike, one is as good a premise as the other. -/
theorem apply_alike (rule : Rule) {f f' : Formula} {g? g'? : Option Formula}
    (hf : f.alike f' = true) (hg : Option.Rel (fun g g' => g.alike g' = true) g? g'?)
    (hfh : f.holding = f) (hfh' : f'.holding = f') (hgh : ∀ g ∈ g?, g.holding = g)
    (hgh' : ∀ g ∈ g'?, g.holding = g) :
    (∀ c ∈ rule.apply f g?, ∃ c' ∈ rule.apply f' g'?, c.alike c' = true) ∧
      (∀ c' ∈ rule.apply f' g'?, ∃ c ∈ rule.apply f g?, c'.alike c = true) := by
  have hg' : Option.Rel (fun g g' => g.alike g' = true) g'? g? := by
    cases hg with
    | none => exact .none
    | some hg => exact .some (alike_symm hg)
  exact ⟨fun c hc => exists_mem_apply hf hg hfh hfh' hgh' hc,
    fun c hc => exists_mem_apply (alike_symm hf) hg' hfh' hfh hgh hc⟩

/-- A negated disjunction refutes the consequent whichever way round either of them is stored. -/
theorem apply_alike_commuted :
    let a : Formula := .atom "A" false (some true)
    let fact : Formula := .compound .or true (.var "A") (.var "B")
    let fact' : Formula := .compound .or true (.var "B") a
    let implication : Formula := .imp (.conj a (.var "C")) (.disj (.var "B") (.var "A"))
    let implication' : Formula := .imp (.conj (.var "C") (.var "A")) (.disj (.var "A") (.var "B"))
    modusTollens.apply fact (some implication) = [.compound .and true a (.var "C")] ∧
      (∀ c ∈ modusTollens.apply fact (some implication),
        ∃ c' ∈ modusTollens.apply fact' (some implication'), c.alike c' = true) ∧
      (∀ c' ∈ modusTollens.apply fact' (some implication'),
        ∃ c ∈ modusTollens.apply fact (some implication), c'.alike c = true) := by
  intro a fact fact' implication implication'
  have hrel : Option.Rel (fun g g' => g.alike g' = true) (some implication) (some implication') :=
    .some (by decide)
  refine ⟨by decide, apply_alike .modusTollens (by decide) hrel rfl rfl ?_ ?_⟩
  · rintro g ⟨⟩
    rfl
  · rintro g ⟨⟩
    rfl

end Rule

end Turnstile
