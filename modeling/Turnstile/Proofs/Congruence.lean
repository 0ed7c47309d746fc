import Turnstile.Proofs.Inference

/-!
Rules do not tell apart formulas that are alike. Of two commuted forms of a formula a store keeps
one, and this is why nothing is lost by that.

* for each rule, one lemma from a conclusion of some premises to one of premises like them. Those of
  the distribution rule go through `Distributes` and `Factors`, which say up to likeness what it
  concludes, so that the order of operands does not matter;
* `Rule.fits_of_mem_conclude_one`, `Rule.fits_of_mem_conclude_two`: among premises that hold, the
  test of their shape turns away none that the rule concludes something from;
* `Rule.exists_mem_apply_one`, `Rule.exists_mem_apply_two`: all rules at once.
-/

namespace Turnstile

/-- The truth of an atom that holds is known. -/
theorem Formula.known_of_holding {f : Formula} (h : f.holding = f) :
    f.atomName? = none ∨ f.truth.isSome = true := by
  cases f with
  | atom name negated truth =>
    refine Or.inr ?_
    rw [← h]
    rfl
  | compound => exact Or.inl rfl

namespace Inference

open Formula

variable {f f' g g' c : Formula}

/-- Of an atom that holds, the stored truth says no more than the sign. -/
theorem refutes_eq_alike (hf : f.holding = f) (b : Formula) : refutes f b = f.alike b.negate := by
  cases f with
  | compound => rfl
  | atom name negated truth =>
    cases b with
    | compound => rfl
    | atom name' negated' truth' =>
      obtain rfl : some (!negated) = truth := (atom.inj hf).2.2
      cases negated <;> cases negated' <;> simp [refutes, negate, alike]

/-! ## Rules for implications -/

theorem exists_mem_modusPonens (hf' : f'.holding = f') (hf : f.alike f' = true)
    (hg : g.alike g' = true) (hc : c ∈ modusPonens f g) :
    ∃ c' ∈ modusPonens f' g', c.alike c' = true := by
  obtain ⟨a, b, rfl, _, ha, rfl⟩ := mem_modusPonens.mp hc
  obtain ⟨a', b', rfl, haa', hbb'⟩ := (alike_ordered_iff rfl).mp hg
  refine ⟨b'.holding, mem_modusPonens.mpr ⟨a', b', rfl, known_of_holding hf', ?_, rfl⟩,
    alike_holding hbb'⟩
  rw [← alike_congr haa' hf]
  exact ha

theorem exists_mem_modusTollens (hfh : f.holding = f) (hfh' : f'.holding = f')
    (hf : f.alike f' = true) (hg : g.alike g' = true) (hc : c ∈ modusTollens f g) :
    ∃ c' ∈ modusTollens f' g', c.alike c' = true := by
  obtain ⟨a, b, rfl, hrefutes, rfl⟩ := mem_modusTollens.mp hc
  obtain ⟨a', b', rfl, haa', hbb'⟩ := (alike_ordered_iff rfl).mp hg
  refine ⟨a'.negate.holding, mem_modusTollens.mpr ⟨a', b', rfl, ?_, rfl⟩,
    alike_holding (alike_negate haa')⟩
  rw [refutes_eq_alike hfh']
  rw [refutes_eq_alike hfh] at hrefutes
  rw [← alike_congr hf (alike_negate hbb')]
  exact hrefutes

theorem exists_mem_hypotheticalSyllogism (hf : f.alike f' = true) (hg : g.alike g' = true)
    (hc : c ∈ hypotheticalSyllogism f g) :
    ∃ c' ∈ hypotheticalSyllogism f' g', c.alike c' = true := by
  obtain ⟨negated, a, b, d, e, rfl, rfl, hbd, hea, rfl⟩ := mem_hypotheticalSyllogism.mp hc
  obtain ⟨a', b', rfl, haa', hbb'⟩ := (alike_ordered_iff rfl).mp hf
  obtain ⟨d', e', rfl, hdd', hee'⟩ := (alike_ordered_iff rfl).mp hg
  rw [alike_congr hbb' hdd'] at hbd
  rw [alike_congr hee' (alike_negate haa')] at hea
  exact ⟨_, mem_hypotheticalSyllogism.mpr ⟨negated, a', b', d', e', rfl, rfl, hbd, hea, rfl⟩,
    alike_compound haa' hee'⟩

theorem exists_mem_conditionalDisjunction (hf : f.alike f' = true)
    (hc : c ∈ conditionalDisjunction f) :
    ∃ c' ∈ conditionalDisjunction f', c.alike c' = true := by
  simp only [mem_conditionalDisjunction] at hc ⊢
  rcases hc with ⟨a, b, rfl, rfl⟩ | ⟨a, b, rfl, which⟩
  · obtain ⟨a', b', rfl, ha, hb⟩ := (alike_ordered_iff rfl).mp hf
    exact ⟨_, Or.inl ⟨a', b', rfl, rfl⟩, alike_compound (alike_negate ha) hb⟩
  · obtain ⟨a', b', rfl, ⟨ha, hb⟩ | ⟨_, ha, hb⟩⟩ := alike_compound_iff.mp hf
    · rcases which with rfl | rfl
      · exact ⟨_, Or.inr ⟨a', b', rfl, Or.inl rfl⟩, alike_compound (alike_negate ha) hb⟩
      · exact ⟨_, Or.inr ⟨a', b', rfl, Or.inr rfl⟩, alike_compound (alike_negate hb) ha⟩
    · rcases which with rfl | rfl
      · exact ⟨_, Or.inr ⟨a', b', rfl, Or.inr rfl⟩, alike_compound (alike_negate ha) hb⟩
      · exact ⟨_, Or.inr ⟨a', b', rfl, Or.inl rfl⟩, alike_compound (alike_negate hb) ha⟩

theorem exists_mem_contraposition (hf : f.alike f' = true) (hc : c ∈ contraposition f) :
    ∃ c' ∈ contraposition f', c.alike c' = true := by
  obtain ⟨a, b, rfl, rfl⟩ := mem_contraposition.mp hc
  obtain ⟨a', b', rfl, ha, hb⟩ := (alike_ordered_iff rfl).mp hf
  exact ⟨_, mem_contraposition.mpr ⟨a', b', rfl, rfl⟩,
    alike_compound (alike_negate hb) (alike_negate ha)⟩

/-- The operands of the antecedent may change places, as the two conclusions do. -/
theorem exists_mem_exportation (hf : f.alike f' = true) (hc : c ∈ exportation f) :
    ∃ c' ∈ exportation f', c.alike c' = true := by
  simp only [mem_exportation] at hc ⊢
  obtain ⟨a, b, d, rfl, which⟩ := hc
  obtain ⟨x, d', rfl, hx, hd⟩ := (alike_ordered_iff rfl).mp hf
  obtain ⟨a', b', rfl, ⟨ha, hb⟩ | ⟨_, ha, hb⟩⟩ := alike_compound_iff.mp hx
  · rcases which with rfl | rfl
    · exact ⟨_, ⟨a', b', d', rfl, Or.inl rfl⟩, alike_compound ha (alike_compound hb hd)⟩
    · exact ⟨_, ⟨a', b', d', rfl, Or.inr rfl⟩, alike_compound hb (alike_compound ha hd)⟩
  · rcases which with rfl | rfl
    · exact ⟨_, ⟨a', b', d', rfl, Or.inr rfl⟩, alike_compound ha (alike_compound hb hd)⟩
    · exact ⟨_, ⟨a', b', d', rfl, Or.inl rfl⟩, alike_compound hb (alike_compound ha hd)⟩

theorem exists_mem_proofByCases (hf : f.alike f' = true) (hg : g.alike g' = true)
    (hc : c ∈ proofByCases f g) : ∃ c' ∈ proofByCases f' g', c.alike c' = true := by
  obtain ⟨a, b, d, e, rfl, rfl, hbe, had, rfl⟩ := mem_proofByCases.mp hc
  obtain ⟨a', b', rfl, haa', hbb'⟩ := (alike_ordered_iff rfl).mp hf
  obtain ⟨d', e', rfl, hdd', hee'⟩ := (alike_ordered_iff rfl).mp hg
  rw [alike_congr hbb' hee'] at hbe
  rw [alike_congr haa' (alike_negate hdd')] at had
  exact ⟨_, mem_proofByCases.mpr ⟨a', b', d', e', rfl, rfl, hbe, had, rfl⟩, alike_holding hbb'⟩

theorem exists_mem_biconditionalElimination (hf : f.alike f' = true)
    (hc : c ∈ biconditionalElimination f) :
    ∃ c' ∈ biconditionalElimination f', c.alike c' = true := by
  simp only [mem_biconditionalElimination] at hc ⊢
  obtain ⟨a, b, rfl, which⟩ := hc
  obtain ⟨a', b', rfl, ha, hb⟩ := (alike_ordered_iff rfl).mp hf
  rcases which with rfl | rfl
  · exact ⟨_, ⟨a', b', rfl, Or.inl rfl⟩, alike_compound ha hb⟩
  · exact ⟨_, ⟨a', b', rfl, Or.inr rfl⟩, alike_compound hb ha⟩

theorem exists_mem_biconditionalIntroduction (hf : f.alike f' = true) (hg : g.alike g' = true)
    (hc : c ∈ biconditionalIntroduction f g) :
    ∃ c' ∈ biconditionalIntroduction f' g', c.alike c' = true := by
  obtain ⟨a, b, d, e, rfl, rfl, had, hbe, hab, rfl⟩ := mem_biconditionalIntroduction.mp hc
  obtain ⟨a', b', rfl, haa', hbb'⟩ := (alike_ordered_iff rfl).mp hf
  obtain ⟨e', d', rfl, hee', hdd'⟩ := (alike_ordered_iff rfl).mp hg
  rw [alike_congr haa' hdd'] at had
  rw [alike_congr hbb' hee'] at hbe
  rw [alike_congr haa' hbb'] at hab
  exact ⟨_, mem_biconditionalIntroduction.mpr ⟨a', b', d', e', rfl, rfl, had, hbe, hab, rfl⟩,
    alike_compound haa' hbb'⟩

/-! ## Rules for conjunctions and disjunctions -/

theorem exists_mem_conjunctionElimination (hf : f.alike f' = true)
    (hc : c ∈ conjunctionElimination f) :
    ∃ c' ∈ conjunctionElimination f', c.alike c' = true := by
  simp only [mem_conjunctionElimination] at hc ⊢
  obtain ⟨a, b, rfl, which⟩ := hc
  obtain ⟨a', b', rfl, ⟨ha, hb⟩ | ⟨_, ha, hb⟩⟩ := alike_compound_iff.mp hf
  · rcases which with rfl | rfl
    · exact ⟨_, ⟨a', b', rfl, Or.inl rfl⟩, alike_holding ha⟩
    · exact ⟨_, ⟨a', b', rfl, Or.inr rfl⟩, alike_holding hb⟩
  · rcases which with rfl | rfl
    · exact ⟨_, ⟨a', b', rfl, Or.inr rfl⟩, alike_holding ha⟩
    · exact ⟨_, ⟨a', b', rfl, Or.inl rfl⟩, alike_holding hb⟩

theorem exists_mem_conjunctionIntroduction (hf : f.alike f' = true) (hg : g.alike g' = true)
    (hc : c ∈ conjunctionIntroduction f g) :
    ∃ c' ∈ conjunctionIntroduction f' g', c.alike c' = true := by
  obtain ⟨_, _, _, _, _, _, rfl, rfl, hne, rfl⟩ := mem_conjunctionIntroduction.mp hc
  obtain ⟨_, rfl⟩ := alike_atom_iff.mp hf
  obtain ⟨_, rfl⟩ := alike_atom_iff.mp hg
  exact ⟨_, mem_conjunctionIntroduction.mpr ⟨_, _, _, _, _, _, rfl, rfl, hne, rfl⟩,
    alike_compound hf hg⟩

theorem exists_mem_deMorgan (hf : f.alike f' = true) (hc : c ∈ deMorgan f) :
    ∃ c' ∈ deMorgan f', c.alike c' = true := by
  simp only [mem_deMorgan] at hc ⊢
  -- the dual connective commutes if the connective does
  have dual : ∀ {op op' : Connective} {negated : Bool} {a b a' b' : Formula},
      op'.commutes = true →
      ((a.alike a' = true ∧ b.alike b' = true) ∨
        (op.commutes = true ∧ a.alike b' = true ∧ b.alike a' = true)) →
      (compound op' negated a.negate b.negate).alike
        (compound op' negated a'.negate b'.negate) = true := by
    rintro op op' negated a b a' b' hop (⟨ha, hb⟩ | ⟨_, ha, hb⟩)
    · exact alike_compound (alike_negate ha) (alike_negate hb)
    · exact alike_swap hop (alike_negate ha) (alike_negate hb)
  obtain ⟨negated, a, b, ⟨rfl, rfl⟩ | ⟨rfl, rfl⟩⟩ := hc
  · obtain ⟨a', b', rfl, pairing⟩ := alike_compound_iff.mp hf
    exact ⟨_, ⟨negated, a', b', Or.inl ⟨rfl, rfl⟩⟩, dual rfl pairing⟩
  · obtain ⟨a', b', rfl, pairing⟩ := alike_compound_iff.mp hf
    exact ⟨_, ⟨negated, a', b', Or.inr ⟨rfl, rfl⟩⟩, dual rfl pairing⟩

theorem exists_mem_selfReference (hf : f.alike f' = true) (hc : c ∈ selfReference f) :
    ∃ c' ∈ selfReference f', c.alike c' = true := by
  obtain ⟨a, b, rfl, hab, rfl⟩ := mem_selfReference.mp hc
  obtain ⟨a', b', rfl, ⟨ha, hb⟩ | ⟨_, ha, hb⟩⟩ := alike_compound_iff.mp hf
  · rw [alike_congr ha hb] at hab
    exact ⟨_, mem_selfReference.mpr ⟨a', b', rfl, hab, rfl⟩, alike_holding ha⟩
  · rw [alike_congr ha hb] at hab
    have hba := alike_symm hab
    exact ⟨_, mem_selfReference.mpr ⟨a', b', rfl, hba, rfl⟩, alike_holding (alike_trans ha hab)⟩

/-! ## Distribution -/

/-- Up to likeness, the first operand is a conjunction and the second is spread over it. -/
def Distributes (p q c : Formula) : Prop :=
  ∃ a b, p.alike (conj a b) = true ∧ c.alike (conj (disj a q) (disj b q)) = true

theorem Distributes.congr {p p' q q' : Formula} (hp : p.alike p' = true) (hq : q.alike q' = true)
    (h : Distributes p q c) : Distributes p' q' c := by
  obtain ⟨a, b, hconj, hc⟩ := h
  refine ⟨a, b, alike_trans (alike_symm hp) hconj, alike_trans hc ?_⟩
  exact alike_compound (alike_compound (alike_refl a) hq) (alike_compound (alike_refl b) hq)

/-- A conjunction on either side will do. -/
theorem exists_mem_distribution_disj {p q : Formula} :
    (∃ c' ∈ distribution (disj p q), c.alike c' = true) ↔
      Distributes p q c ∨ Distributes q p c := by
  constructor
  · rintro ⟨c', hc', hc⟩
    rcases List.mem_append.mp hc' with hc' | hc'
    · obtain ⟨a, b, rfl, rfl⟩ := mem_distributeLeft.mp hc'
      exact Or.inl ⟨a, b, alike_refl _, hc⟩
    · obtain ⟨a, b, rfl, rfl⟩ := mem_distributeRight.mp hc'
      refine Or.inr ⟨a, b, alike_refl _, alike_trans hc ?_⟩
      exact alike_compound (alike_swap rfl (alike_refl p) (alike_refl a))
        (alike_swap rfl (alike_refl p) (alike_refl b))
  · rintro (⟨a, b, hconj, hc⟩ | ⟨a, b, hconj, hc⟩)
    · obtain ⟨a', b', rfl, pairing⟩ := alike_compound_iff.mp (alike_symm hconj)
      refine ⟨_, List.mem_append_left _ (mem_distributeLeft.mpr ⟨a', b', rfl, rfl⟩), ?_⟩
      refine alike_trans hc ?_
      rcases pairing with ⟨ha, hb⟩ | ⟨_, ha, hb⟩
      · exact alike_compound (alike_compound ha (alike_refl q)) (alike_compound hb (alike_refl q))
      · exact alike_swap rfl (alike_compound ha (alike_refl q)) (alike_compound hb (alike_refl q))
    · obtain ⟨a', b', rfl, pairing⟩ := alike_compound_iff.mp (alike_symm hconj)
      refine ⟨_, List.mem_append_right _ (mem_distributeRight.mpr ⟨a', b', rfl, rfl⟩), ?_⟩
      refine alike_trans hc ?_
      rcases pairing with ⟨ha, hb⟩ | ⟨_, ha, hb⟩
      · exact alike_compound (alike_swap rfl ha (alike_refl p)) (alike_swap rfl hb (alike_refl p))
      · exact alike_swap rfl (alike_swap rfl ha (alike_refl p)) (alike_swap rfl hb (alike_refl p))

/-- Up to likeness, the two are disjunctions with an operand in common, which is taken out. -/
def Factors (p q c : Formula) : Prop :=
  ∃ shared rest rest', p.alike (disj shared rest) = true ∧ q.alike (disj shared rest') = true ∧
    c.alike (disj (conj rest rest') shared) = true

theorem Factors.congr {p p' q q' : Formula} (hp : p.alike p' = true) (hq : q.alike q' = true)
    (h : Factors p q c) : Factors p' q' c := by
  obtain ⟨shared, rest, rest', hfirst, hsecond, hc⟩ := h
  exact ⟨shared, rest, rest', alike_trans (alike_symm hp) hfirst,
    alike_trans (alike_symm hq) hsecond, hc⟩

theorem Factors.symm {p q : Formula} (h : Factors p q c) : Factors q p c := by
  obtain ⟨shared, rest, rest', hfirst, hsecond, hc⟩ := h
  refine ⟨shared, rest', rest, hsecond, hfirst, alike_trans hc ?_⟩
  exact alike_compound (alike_swap rfl (alike_refl rest) (alike_refl rest')) (alike_refl shared)

/-- Of each formula that is left out as a repetition, one like it is kept. -/
theorem exists_mem_distinct {formulas : List Formula} (hc : c ∈ formulas) :
    ∃ c' ∈ distinct formulas, c.alike c' = true := by
  have kept : ∀ (rest kept : List Formula),
      (c ∈ rest ∨ ∃ c' ∈ kept, c.alike c' = true) →
        ∃ c' ∈ rest.foldl (fun kept f => if kept.any (·.alike f) then kept else kept ++ [f]) kept,
          c.alike c' = true := by
    intro rest
    induction rest with
    | nil =>
      rintro kept (h | h)
      · cases h
      · exact h
    | cons f rest ih =>
      intro kept h
      refine ih _ ?_
      rcases h with h | ⟨c', hc', halike⟩
      · rcases List.mem_cons.mp h with rfl | h
        · refine Or.inr ?_
          dsimp only
          split
          · next hany =>
            obtain ⟨c', hc', halike⟩ := List.any_eq_true.mp hany
            exact ⟨c', hc', alike_symm halike⟩
          · exact ⟨c, List.mem_append_right _ List.mem_cons_self, alike_refl c⟩
        · exact Or.inl h
      · refine Or.inr ⟨c', ?_, halike⟩
        dsimp only
        split
        · exact hc'
        · exact List.mem_append_left _ hc'
  exact kept formulas [] (Or.inl hc)

theorem exists_mem_factor {p q : Formula} :
    (∃ c' ∈ factor p q, c.alike c' = true) ↔ Factors p q c := by
  constructor
  · rintro ⟨c', hc', hc⟩
    obtain ⟨shared, rest, shared', rest', hfirst, hsecond, hshared, rfl⟩ := mem_factor hc'
    refine ⟨shared, rest, rest', ?_, ?_, hc⟩
    · rcases hfirst with rfl | rfl
      · exact alike_refl _
      · exact alike_swap rfl (alike_refl rest) (alike_refl shared)
    · rcases hsecond with rfl | rfl
      · exact alike_compound (alike_symm hshared) (alike_refl rest')
      · exact alike_swap rfl (alike_refl rest') (alike_symm hshared)
  · rintro ⟨shared, rest, rest', hfirst, hsecond, hc⟩
    -- each disjunction has the shared operand on one side or the other
    obtain ⟨a, b, rfl, hab⟩ := alike_compound_iff.mp (alike_symm hfirst)
    obtain ⟨d, e, rfl, hde⟩ := alike_compound_iff.mp (alike_symm hsecond)
    have side : ∀ {r x y : Formula}, ((shared.alike x = true ∧ r.alike y = true) ∨
        (Connective.or.commutes = true ∧ shared.alike y = true ∧ r.alike x = true)) →
        ∃ s t, (s, t) ∈ [(x, y), (y, x)] ∧ shared.alike s = true ∧ r.alike t = true := by
      rintro r x y (⟨hs, hr⟩ | ⟨_, hs, hr⟩)
      · exact ⟨x, y, List.mem_cons_self, hs, hr⟩
      · exact ⟨y, x, List.mem_cons_of_mem _ List.mem_cons_self, hs, hr⟩
    obtain ⟨s, t, hst, hs, ht⟩ := side hab
    obtain ⟨s', t', hst', hs', ht'⟩ := side hde
    obtain ⟨c', hc', halike⟩ : ∃ c' ∈ factor (disj a b) (disj d e),
        (disj (conj t t') s).alike c' = true := by
      refine exists_mem_distinct ?_
      refine List.mem_flatMap.mpr ⟨(s, t), hst, List.mem_filterMap.mpr ⟨(s', t'), hst', ?_⟩⟩
      exact if_pos (alike_trans (alike_symm hs) hs')
    refine ⟨c', hc', alike_trans hc (alike_trans ?_ halike)⟩
    exact alike_compound (alike_compound ht ht') hs

theorem exists_mem_distribution (hf : f.alike f' = true) (hc : c ∈ distribution f) :
    ∃ c' ∈ distribution f', c.alike c' = true := by
  have hd : ∃ c' ∈ distribution f, c.alike c' = true := ⟨c, hc, alike_refl c⟩
  rcases mem_distribution.mp hc with ⟨p, q, rfl, _⟩ | ⟨p, q, rfl, _⟩
  · have hd := exists_mem_distribution_disj.mp hd
    obtain ⟨p', q', rfl, ⟨hp, hq⟩ | ⟨_, hp, hq⟩⟩ := alike_compound_iff.mp hf
    · exact exists_mem_distribution_disj.mpr
        (hd.imp (Distributes.congr hp hq) (Distributes.congr hq hp))
    · exact exists_mem_distribution_disj.mpr
        (hd.symm.imp (Distributes.congr hq hp) (Distributes.congr hp hq))
  · have hd := exists_mem_factor.mp hd
    obtain ⟨p', q', rfl, ⟨hp, hq⟩ | ⟨_, hp, hq⟩⟩ := alike_compound_iff.mp hf
    · exact exists_mem_factor.mpr (hd.congr hp hq)
    · exact exists_mem_factor.mpr (hd.congr hp hq).symm

end Inference

/-! ## The catalog -/

namespace Rule

open Formula Inference

variable {rule : Rule} {f f' g g' c : Formula}

theorem fits_of_mem_conclude_one {test : Formula → Bool} (hshape : rule.shape = .one test)
    (hc : c ∈ rule.conclude f none) : rule.shape.fits f none = true := by
  cases rule <;> cases hshape <;> simp only [conclude] at hc
  case conditionalDisjunction =>
    rcases mem_conditionalDisjunction.mp hc with ⟨_, _, rfl, _⟩ | ⟨_, _, rfl, _⟩ <;> rfl
  case contraposition => obtain ⟨_, _, rfl, _⟩ := mem_contraposition.mp hc; rfl
  case exportation => obtain ⟨_, _, _, rfl, _⟩ := mem_exportation.mp hc; rfl
  case conjunctionElimination => obtain ⟨_, _, rfl, _⟩ := mem_conjunctionElimination.mp hc; rfl
  case deMorgan => obtain ⟨_, _, _, ⟨rfl, _⟩ | ⟨rfl, _⟩⟩ := mem_deMorgan.mp hc <;> rfl
  case distribution =>
    rcases mem_distribution.mp hc with ⟨_, _, rfl, _⟩ | ⟨_, _, rfl, _⟩ <;> rfl
  case selfReference => obtain ⟨_, _, rfl, _⟩ := mem_selfReference.mp hc; rfl
  case biconditionalElimination =>
    obtain ⟨_, _, rfl, _⟩ := mem_biconditionalElimination.mp hc; rfl

/-- Only the test for known atoms asks for more than the rule itself does. -/
theorem fits_of_mem_conclude_two {first second : Formula → Bool}
    (hshape : rule.shape = .two first second) (hf : f.holding = f) (hg : g.holding = g)
    (hc : c ∈ rule.conclude f (some g)) : rule.shape.fits f (some g) = true := by
  cases rule <;> cases hshape <;> simp only [conclude] at hc
  case modusPonens => obtain ⟨_, _, rfl, _⟩ := mem_modusPonens.mp hc; rfl
  case modusTollens => obtain ⟨_, _, rfl, _⟩ := mem_modusTollens.mp hc; rfl
  case hypotheticalSyllogism =>
    obtain ⟨_, _, _, _, _, rfl, rfl, _⟩ := mem_hypotheticalSyllogism.mp hc; rfl
  case conjunctionIntroduction =>
    obtain ⟨_, _, _, _, _, _, rfl, rfl, _⟩ := mem_conjunctionIntroduction.mp hc
    rw [← hf, ← hg]
    rfl
  case proofByCases => obtain ⟨_, _, _, _, rfl, rfl, _⟩ := mem_proofByCases.mp hc; rfl
  case biconditionalIntroduction =>
    obtain ⟨_, _, _, _, rfl, rfl, _⟩ := mem_biconditionalIntroduction.mp hc; rfl

theorem exists_mem_apply_one (hf : f.alike f' = true) (hc : c ∈ rule.apply f none) :
    ∃ c' ∈ rule.apply f' none, c.alike c' = true := by
  cases hshape : rule.shape with
  | two first second => rw [apply, hshape] at hc; cases hc
  | one test =>
    have hc := (mem_apply.mp hc).2
    obtain ⟨c', hc', halike⟩ : ∃ c' ∈ rule.conclude f' none, c.alike c' = true := by
      cases rule <;> cases hshape <;> simp only [conclude] at hc ⊢
      case conditionalDisjunction => exact exists_mem_conditionalDisjunction hf hc
      case contraposition => exact exists_mem_contraposition hf hc
      case exportation => exact exists_mem_exportation hf hc
      case conjunctionElimination => exact exists_mem_conjunctionElimination hf hc
      case deMorgan => exact exists_mem_deMorgan hf hc
      case distribution => exact exists_mem_distribution hf hc
      case selfReference => exact exists_mem_selfReference hf hc
      case biconditionalElimination => exact exists_mem_biconditionalElimination hf hc
    exact ⟨c', mem_apply.mpr ⟨fits_of_mem_conclude_one hshape hc', hc'⟩, halike⟩

theorem exists_mem_apply_two (hfh : f.holding = f) (hfh' : f'.holding = f')
    (hgh' : g'.holding = g') (hf : f.alike f' = true) (hg : g.alike g' = true)
    (hc : c ∈ rule.apply f (some g)) : ∃ c' ∈ rule.apply f' (some g'), c.alike c' = true := by
  cases hshape : rule.shape with
  | one test => rw [apply, hshape] at hc; cases hc
  | two first second =>
    have hc := (mem_apply.mp hc).2
    obtain ⟨c', hc', halike⟩ : ∃ c' ∈ rule.conclude f' (some g'), c.alike c' = true := by
      cases rule <;> cases hshape <;> simp only [conclude] at hc ⊢
      case modusPonens => exact exists_mem_modusPonens hfh' hf hg hc
      case modusTollens => exact exists_mem_modusTollens hfh hfh' hf hg hc
      case hypotheticalSyllogism => exact exists_mem_hypotheticalSyllogism hf hg hc
      case conjunctionIntroduction => exact exists_mem_conjunctionIntroduction hf hg hc
      case proofByCases => exact exists_mem_proofByCases hf hg hc
      case biconditionalIntroduction => exact exists_mem_biconditionalIntroduction hf hg hc
    exact ⟨c', mem_apply.mpr ⟨fits_of_mem_conclude_two hshape hfh' hgh' hc', hc'⟩, halike⟩

end Rule

end Turnstile
