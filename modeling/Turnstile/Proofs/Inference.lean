import Turnstile.Rule.Conclusions
import Turnstile.Proofs.Alike

/-!
The fourteen rules read backwards: from a conclusion to what its premises look like. Proved here:

* one `mem_` lemma for each rule, which says exactly when it draws a conclusion;
* `holding_of_mem_apply`: a conclusion that is an atom stores the truth its sign gives it;
* `eval_of_mem_apply`: a conclusion is true wherever its premises are, provided that no premise is
  an atom whose stored truth contradicts its sign. Without the proviso the rules that go by the
  stored truth would not be sound.
-/

namespace Turnstile

/-- An atom that stores a truth stores the one that its sign gives it. -/
def Formula.IsFaithful : Formula → Prop
  | .atom _ negated truth => truth = none ∨ truth = some (!negated)
  | .compound .. => True

theorem Formula.isFaithful_of_holding {f : Formula} (h : f.holding = f) : f.IsFaithful := by
  cases f with
  | atom name negated truth => exact Or.inr (Formula.atom.inj h).2.2.symm
  | compound => trivial

namespace Inference

open Formula

/-! ## What each rule concludes -/

theorem mem_modusPonens {fact g c : Formula} :
    c ∈ modusPonens fact g ↔ ∃ a b, g = imp a b ∧
      (fact.atomName? = none ∨ fact.truth.isSome = true) ∧ a.alike fact = true ∧ c = b.holding := by
  constructor
  · intro hc
    unfold modusPonens at hc
    split at hc
    · split at hc
      · next a b hif =>
        simp only [Bool.and_eq_true, Bool.or_eq_true, Option.isNone_iff_eq_none] at hif
        exact ⟨a, b, rfl, hif.1, hif.2, List.mem_singleton.mp hc⟩
      · simp at hc
    · simp at hc
  · rintro ⟨a, b, rfl, hknown, ha, rfl⟩
    rcases hknown with h | h <;> simp [modusPonens, h, ha]

theorem mem_modusTollens {fact g c : Formula} :
    c ∈ modusTollens fact g ↔ ∃ a b, g = imp a b ∧
      refutes fact b = true ∧ c = a.negate.holding := by
  constructor
  · intro hc
    unfold modusTollens at hc
    split at hc
    · split at hc
      · next a b hif => exact ⟨a, b, rfl, hif, List.mem_singleton.mp hc⟩
      · simp at hc
    · simp at hc
  · rintro ⟨a, b, rfl, h, rfl⟩
    simp [modusTollens, h]

theorem mem_hypotheticalSyllogism {f g c : Formula} :
    c ∈ hypotheticalSyllogism f g ↔ ∃ negated a b b' d,
      f = compound .implies negated a b ∧ g = compound .implies negated b' d ∧
        b.alike b' = true ∧ d.alike a.negate = false ∧ c = compound .implies negated a d := by
  constructor
  · intro hc
    unfold hypotheticalSyllogism at hc
    split at hc
    · split at hc
      · next negated a b negated' b' d hif =>
        simp only [Bool.and_eq_true, beq_iff_eq, Bool.not_eq_true'] at hif
        obtain ⟨⟨rfl, hb⟩, hd⟩ := hif
        exact ⟨negated, a, b, b', d, rfl, rfl, hb, hd, List.mem_singleton.mp hc⟩
      · simp at hc
    · simp at hc
  · rintro ⟨negated, a, b, b', d, rfl, rfl, hb, hd, rfl⟩
    simp [hypotheticalSyllogism, hb, hd]

theorem mem_conditionalDisjunction {f c : Formula} :
    c ∈ conditionalDisjunction f ↔
      (∃ a b, f = imp a b ∧ c = disj a.negate b) ∨
      (∃ a b, f = disj a b ∧ (c = imp a.negate b ∨ c = imp b.negate a)) := by
  constructor
  · intro hc
    unfold conditionalDisjunction at hc
    split at hc
    · next a b => exact Or.inl ⟨a, b, rfl, List.mem_singleton.mp hc⟩
    · next a b => exact Or.inr ⟨a, b, rfl, by simpa using hc⟩
    · simp at hc
  · rintro (⟨a, b, rfl, rfl⟩ | ⟨a, b, rfl, rfl | rfl⟩) <;> simp [conditionalDisjunction]

theorem mem_contraposition {f c : Formula} :
    c ∈ contraposition f ↔ ∃ a b, f = imp a b ∧ c = imp b.negate a.negate := by
  constructor
  · intro hc
    unfold contraposition at hc
    split at hc
    · next a b => exact ⟨a, b, rfl, List.mem_singleton.mp hc⟩
    · simp at hc
  · rintro ⟨a, b, rfl, rfl⟩
    simp [contraposition]

theorem mem_exportation {f c : Formula} :
    c ∈ exportation f ↔ ∃ a b d, f = imp (conj a b) d ∧
      (c = imp a (imp b d) ∨ c = imp b (imp a d)) := by
  constructor
  · intro hc
    unfold exportation at hc
    split at hc
    · next a b d => exact ⟨a, b, d, rfl, by simpa using hc⟩
    · simp at hc
  · rintro ⟨a, b, d, rfl, rfl | rfl⟩ <;> simp [exportation]

theorem mem_conjunctionElimination {f c : Formula} :
    c ∈ conjunctionElimination f ↔ ∃ a b, f = conj a b ∧ (c = a.holding ∨ c = b.holding) := by
  constructor
  · intro hc
    unfold conjunctionElimination at hc
    split at hc
    · next a b => exact ⟨a, b, rfl, by simpa using hc⟩
    · simp at hc
  · rintro ⟨a, b, rfl, rfl | rfl⟩ <;> simp [conjunctionElimination]

theorem mem_conjunctionIntroduction {f g c : Formula} :
    c ∈ conjunctionIntroduction f g ↔ ∃ name negated truth name' negated' truth',
      f = atom name negated truth ∧ g = atom name' negated' truth' ∧ name ≠ name' ∧
        c = conj f g := by
  constructor
  · intro hc
    unfold conjunctionIntroduction at hc
    split at hc
    · split at hc
      · simp at hc
      · next name negated truth name' negated' truth' hne =>
        exact ⟨name, negated, truth, name', negated', truth', rfl, rfl, by simpa using hne,
          List.mem_singleton.mp hc⟩
    · simp at hc
  · rintro ⟨name, negated, truth, name', negated', truth', rfl, rfl, hne, rfl⟩
    simp [conjunctionIntroduction, hne]

theorem mem_deMorgan {f c : Formula} :
    c ∈ deMorgan f ↔ ∃ negated a b,
      (f = compound .and negated a b ∧ c = compound .or (!negated) a.negate b.negate) ∨
      (f = compound .or negated a b ∧ c = compound .and (!negated) a.negate b.negate) := by
  constructor
  · intro hc
    unfold deMorgan at hc
    split at hc
    · next negated a b => exact ⟨negated, a, b, Or.inl ⟨rfl, List.mem_singleton.mp hc⟩⟩
    · next negated a b => exact ⟨negated, a, b, Or.inr ⟨rfl, List.mem_singleton.mp hc⟩⟩
    · simp at hc
  · rintro ⟨negated, a, b, ⟨rfl, rfl⟩ | ⟨rfl, rfl⟩⟩ <;> simp [deMorgan]

theorem mem_distributeLeft {f d c : Formula} :
    c ∈ distributeLeft f d ↔ ∃ a b, f = conj a b ∧ c = conj (disj a d) (disj b d) := by
  constructor
  · intro hc
    unfold distributeLeft at hc
    split at hc
    · next a b => exact ⟨a, b, rfl, List.mem_singleton.mp hc⟩
    · simp at hc
  · rintro ⟨a, b, rfl, rfl⟩
    simp [distributeLeft]

theorem mem_distributeRight {d f c : Formula} :
    c ∈ distributeRight d f ↔ ∃ a b, f = conj a b ∧ c = conj (disj d a) (disj d b) := by
  constructor
  · intro hc
    unfold distributeRight at hc
    split at hc
    · next a b => exact ⟨a, b, rfl, List.mem_singleton.mp hc⟩
    · simp at hc
  · rintro ⟨a, b, rfl, rfl⟩
    simp [distributeRight]

/-- Dropping repetitions adds nothing. -/
theorem mem_of_mem_distinct {formulas : List Formula} {c : Formula} (hc : c ∈ distinct formulas) :
    c ∈ formulas := by
  have from_either : ∀ (rest kept : List Formula),
      c ∈ rest.foldl (fun kept f => if kept.any (·.alike f) then kept else kept ++ [f]) kept →
        c ∈ kept ∨ c ∈ rest := by
    intro rest
    induction rest with
    | nil => intro kept h; exact Or.inl h
    | cons f rest ih =>
      intro kept h
      rcases ih _ h with h | h
      · dsimp only at h
        split at h
        · exact Or.inl h
        · rcases List.mem_append.mp h with h | h
          · exact Or.inl h
          · exact Or.inr (List.mem_cons.mpr (Or.inl (List.mem_singleton.mp h)))
      · exact Or.inr (List.mem_cons_of_mem f h)
  rcases from_either formulas [] hc with h | h
  · simp at h
  · exact h

/-- A factored conclusion names the operand that the two disjunctions share. -/
theorem mem_factor {f g c : Formula} (hc : c ∈ factor f g) :
    ∃ shared rest shared' rest',
      (f = disj shared rest ∨ f = disj rest shared) ∧
      (g = disj shared' rest' ∨ g = disj rest' shared') ∧
      shared.alike shared' = true ∧ c = disj (conj rest rest') shared := by
  unfold factor at hc
  split at hc
  · next a b a' b' =>
    obtain ⟨⟨shared, rest⟩, hfirst, hc⟩ := List.mem_flatMap.mp (mem_of_mem_distinct hc)
    obtain ⟨⟨shared', rest'⟩, hsecond, hc⟩ := List.mem_filterMap.mp hc
    simp only [Option.ite_none_right_eq_some, Option.some.injEq] at hc
    refine ⟨shared, rest, shared', rest', ?_, ?_, hc.1, hc.2.symm⟩
    · simp only [List.mem_cons, Prod.mk.injEq, List.not_mem_nil, or_false] at hfirst
      rcases hfirst with ⟨rfl, rfl⟩ | ⟨rfl, rfl⟩
      · exact Or.inl rfl
      · exact Or.inr rfl
    · simp only [List.mem_cons, Prod.mk.injEq, List.not_mem_nil, or_false] at hsecond
      rcases hsecond with ⟨rfl, rfl⟩ | ⟨rfl, rfl⟩
      · exact Or.inl rfl
      · exact Or.inr rfl
  · simp at hc

theorem mem_distribution {f c : Formula} :
    c ∈ distribution f ↔
      (∃ a b, f = disj a b ∧ (c ∈ distributeLeft a b ∨ c ∈ distributeRight a b)) ∨
      (∃ a b, f = conj a b ∧ c ∈ factor a b) := by
  constructor
  · intro hc
    unfold distribution at hc
    split at hc
    · next a b => exact Or.inl ⟨a, b, rfl, List.mem_append.mp hc⟩
    · next a b => exact Or.inr ⟨a, b, rfl, hc⟩
    · simp at hc
  · rintro (⟨a, b, rfl, hc⟩ | ⟨a, b, rfl, hc⟩)
    · exact List.mem_append.mpr hc
    · exact hc

theorem mem_proofByCases {f g c : Formula} :
    c ∈ proofByCases f g ↔ ∃ a b a' b', f = imp a b ∧ g = imp a' b' ∧
      b.alike b' = true ∧ a.alike a'.negate = true ∧ c = b.holding := by
  constructor
  · intro hc
    unfold proofByCases at hc
    split at hc
    · split at hc
      · next a b a' b' hif =>
        obtain ⟨hb, ha⟩ := (Bool.and_eq_true _ _).mp hif
        exact ⟨a, b, a', b', rfl, rfl, hb, ha, List.mem_singleton.mp hc⟩
      · simp at hc
    · simp at hc
  · rintro ⟨a, b, a', b', rfl, rfl, hb, ha, rfl⟩
    simp [proofByCases, hb, ha]

theorem mem_selfReference {f c : Formula} :
    c ∈ selfReference f ↔ ∃ a b, f = disj a b ∧ a.alike b = true ∧ c = a.holding := by
  constructor
  · intro hc
    unfold selfReference at hc
    split at hc
    · split at hc
      · next a b hab => exact ⟨a, b, rfl, hab, List.mem_singleton.mp hc⟩
      · simp at hc
    · simp at hc
  · rintro ⟨a, b, rfl, hab, rfl⟩
    simp [selfReference, hab]

theorem mem_biconditionalElimination {f c : Formula} :
    c ∈ biconditionalElimination f ↔ ∃ a b, f = equiv a b ∧ (c = imp a b ∨ c = imp b a) := by
  constructor
  · intro hc
    unfold biconditionalElimination at hc
    split at hc
    · next a b => exact ⟨a, b, rfl, by simpa using hc⟩
    · simp at hc
  · rintro ⟨a, b, rfl, rfl | rfl⟩ <;> simp [biconditionalElimination]

theorem mem_biconditionalIntroduction {f g c : Formula} :
    c ∈ biconditionalIntroduction f g ↔ ∃ a b a' b', f = imp a b ∧ g = imp b' a' ∧
      a.alike a' = true ∧ b.alike b' = true ∧ a.alike b = false ∧ c = equiv a b := by
  constructor
  · intro hc
    unfold biconditionalIntroduction at hc
    split at hc
    · split at hc
      · next a b b' a' hif =>
        simp only [Bool.and_eq_true, Bool.not_eq_true'] at hif
        exact ⟨a, b, a', b', rfl, rfl, hif.1.1, hif.1.2, hif.2, List.mem_singleton.mp hc⟩
      · simp at hc
    · simp at hc
  · rintro ⟨a, b, a', b', rfl, rfl, ha, hb, hab, rfl⟩
    simp [biconditionalIntroduction, ha, hb, hab]

/-! ## Conclusions are true where the premises are -/

variable {v : Valuation} {f g c : Formula}

theorem eval_of_mem_modusPonens (hf : f.eval v = true) (hg : g.eval v = true)
    (hc : c ∈ modusPonens f g) : c.eval v = true := by
  obtain ⟨a, b, rfl, _, ha, rfl⟩ := mem_modusPonens.mp hc
  rw [eval_holding]
  exact (eval_imp v a b).mp hg ((eval_eq_of_alike v ha).trans hf)

/-- An atom refutes by its stored truth, so that truth has to be the one its sign gives it. -/
theorem eval_of_refutes (faithful : f.IsFaithful) (hf : f.eval v = true)
    (h : refutes f g = true) : g.eval v = false := by
  unfold refutes at h
  split at h
  · next name negated truth name' negated' truth' =>
    simp only [Bool.and_eq_true, beq_iff_eq, bne_iff_ne] at h
    obtain ⟨⟨rfl, hknown⟩, hne⟩ := h
    rcases faithful with rfl | rfl
    · simp at hknown
    · have hsign : negated' = !negated := by
        cases negated <;> cases negated' <;> simp at hne <;> rfl
      simp only [eval, bne_iff_ne, ne_eq] at hf
      subst hsign
      cases negated <;> simp at hf <;> simp [eval, hf]
  · rw [eval_eq_of_alike v h, eval_negate] at hf
    simpa using hf

theorem eval_of_mem_modusTollens (faithful : f.IsFaithful) (hf : f.eval v = true)
    (hg : g.eval v = true) (hc : c ∈ modusTollens f g) : c.eval v = true := by
  obtain ⟨a, b, rfl, h, rfl⟩ := mem_modusTollens.mp hc
  have hb := eval_of_refutes faithful hf h
  rw [eval_holding, eval_negate]
  cases ha : a.eval v with
  | false => rfl
  | true => rw [(eval_imp v a b).mp hg ha] at hb; exact absurd hb (by decide)

/-- Two negated implications that chain contradict each other, so anything follows from them. -/
theorem eval_of_mem_hypotheticalSyllogism (hf : f.eval v = true) (hg : g.eval v = true)
    (hc : c ∈ hypotheticalSyllogism f g) : c.eval v = true := by
  obtain ⟨negated, a, b, b', d, rfl, rfl, hb, _, rfl⟩ := mem_hypotheticalSyllogism.mp hc
  have hb := eval_eq_of_alike v hb
  cases negated with
  | false =>
    refine (eval_imp v a d).mpr fun ha => (eval_imp v b' d).mp hg ?_
    rw [← hb]
    exact (eval_imp v a b).mp hf ha
  | true =>
    have hb_false : b.eval v = false := by
      have h : a.eval v = true ∧ b.eval v = false := by simpa [eval, Connective.eval] using hf
      exact h.2
    have hb_true : b'.eval v = true := by
      have h : b'.eval v = true ∧ d.eval v = false := by simpa [eval, Connective.eval] using hg
      exact h.1
    rw [← hb, hb_false] at hb_true
    exact absurd hb_true (by decide)

theorem eval_of_mem_conditionalDisjunction (hf : f.eval v = true)
    (hc : c ∈ conditionalDisjunction f) : c.eval v = true := by
  rcases mem_conditionalDisjunction.mp hc with ⟨a, b, rfl, rfl⟩ | ⟨a, b, rfl, rfl | rfl⟩
  · simpa [eval, Connective.eval] using hf
  · simpa [eval, Connective.eval] using hf
  · simpa [eval, Connective.eval, or_comm] using hf

theorem eval_of_mem_contraposition (hf : f.eval v = true) (hc : c ∈ contraposition f) :
    c.eval v = true := by
  obtain ⟨a, b, rfl, rfl⟩ := mem_contraposition.mp hc
  simpa [eval, Connective.eval, or_comm] using hf

theorem eval_of_mem_exportation (hf : f.eval v = true) (hc : c ∈ exportation f) :
    c.eval v = true := by
  obtain ⟨a, b, d, rfl, which⟩ := mem_exportation.mp hc
  have hd : a.eval v = true → b.eval v = true → d.eval v = true := fun ha hb =>
    (eval_imp v (conj a b) d).mp hf ((eval_conj v a b).mpr ⟨ha, hb⟩)
  rcases which with rfl | rfl
  · exact (eval_imp v _ _).mpr fun ha => (eval_imp v _ _).mpr fun hb => hd ha hb
  · exact (eval_imp v _ _).mpr fun hb => (eval_imp v _ _).mpr fun ha => hd ha hb

theorem eval_of_mem_conjunctionElimination (hf : f.eval v = true)
    (hc : c ∈ conjunctionElimination f) : c.eval v = true := by
  obtain ⟨a, b, rfl, which⟩ := mem_conjunctionElimination.mp hc
  obtain ⟨ha, hb⟩ := (eval_conj v a b).mp hf
  rcases which with rfl | rfl
  · rw [eval_holding]; exact ha
  · rw [eval_holding]; exact hb

theorem eval_of_mem_conjunctionIntroduction (hf : f.eval v = true) (hg : g.eval v = true)
    (hc : c ∈ conjunctionIntroduction f g) : c.eval v = true := by
  obtain ⟨_, _, _, _, _, _, _, _, _, rfl⟩ := mem_conjunctionIntroduction.mp hc
  exact (eval_conj v f g).mpr ⟨hf, hg⟩

theorem eval_of_mem_deMorgan (hf : f.eval v = true) (hc : c ∈ deMorgan f) :
    c.eval v = true := by
  obtain ⟨negated, a, b, ⟨rfl, rfl⟩ | ⟨rfl, rfl⟩⟩ := mem_deMorgan.mp hc
  · simpa only [eval, Connective.eval, eval_negate, ← Bool.not_and, Bool.not_bne_not] using hf
  · simpa only [eval, Connective.eval, eval_negate, ← Bool.not_or, Bool.not_bne_not] using hf

theorem eval_of_mem_factor (hf : f.eval v = true) (hg : g.eval v = true)
    (hc : c ∈ factor f g) : c.eval v = true := by
  obtain ⟨shared, rest, shared', rest', hfirst, hsecond, hshared, rfl⟩ := mem_factor hc
  have hf : shared.eval v = true ∨ rest.eval v = true := by
    rcases hfirst with rfl | rfl
    · exact (eval_disj v shared rest).mp hf
    · exact ((eval_disj v rest shared).mp hf).symm
  have hg : shared.eval v = true ∨ rest'.eval v = true := by
    rw [eval_eq_of_alike v hshared]
    rcases hsecond with rfl | rfl
    · exact (eval_disj v shared' rest').mp hg
    · exact ((eval_disj v rest' shared').mp hg).symm
  refine (eval_disj v _ shared).mpr ?_
  rcases hf with hs | hrest
  · exact Or.inr hs
  · rcases hg with hs | hrest'
    · exact Or.inr hs
    · exact Or.inl ((eval_conj v rest rest').mpr ⟨hrest, hrest'⟩)

theorem eval_of_mem_distribution (hf : f.eval v = true) (hc : c ∈ distribution f) :
    c.eval v = true := by
  rcases mem_distribution.mp hc with ⟨a, b, rfl, hc | hc⟩ | ⟨a, b, rfl, hc⟩
  · obtain ⟨a₁, a₂, rfl, rfl⟩ := mem_distributeLeft.mp hc
    simp only [eval_conj, eval_disj] at hf ⊢
    exact ⟨hf.imp And.left id, hf.imp And.right id⟩
  · obtain ⟨b₁, b₂, rfl, rfl⟩ := mem_distributeRight.mp hc
    simp only [eval_conj, eval_disj] at hf ⊢
    exact ⟨hf.imp id And.left, hf.imp id And.right⟩
  · obtain ⟨ha, hb⟩ := (eval_conj v a b).mp hf
    exact eval_of_mem_factor ha hb hc

theorem eval_of_mem_proofByCases (hf : f.eval v = true) (hg : g.eval v = true)
    (hc : c ∈ proofByCases f g) : c.eval v = true := by
  obtain ⟨a, b, a', b', rfl, rfl, hb, ha, rfl⟩ := mem_proofByCases.mp hc
  have ha := eval_eq_of_alike v ha
  rw [eval_negate] at ha
  rw [eval_holding]
  cases ha' : a'.eval v with
  | true => rw [eval_eq_of_alike v hb]; exact (eval_imp v a' b').mp hg ha'
  | false => exact (eval_imp v a b).mp hf (by rw [ha, ha']; rfl)

theorem eval_of_mem_selfReference (hf : f.eval v = true) (hc : c ∈ selfReference f) :
    c.eval v = true := by
  obtain ⟨a, b, rfl, hab, rfl⟩ := mem_selfReference.mp hc
  rw [eval_holding]
  rcases (eval_disj v a b).mp hf with ha | hb
  · exact ha
  · exact (eval_eq_of_alike v hab).trans hb

theorem eval_of_mem_biconditionalElimination (hf : f.eval v = true)
    (hc : c ∈ biconditionalElimination f) : c.eval v = true := by
  obtain ⟨a, b, rfl, which⟩ := mem_biconditionalElimination.mp hc
  have hab := (eval_equiv v a b).mp hf
  rcases which with rfl | rfl
  · exact (eval_imp v a b).mpr fun ha => hab ▸ ha
  · exact (eval_imp v b a).mpr fun hb => hab.trans hb

theorem eval_of_mem_biconditionalIntroduction (hf : f.eval v = true) (hg : g.eval v = true)
    (hc : c ∈ biconditionalIntroduction f g) : c.eval v = true := by
  obtain ⟨a, b, a', b', rfl, rfl, ha, hb, _, rfl⟩ := mem_biconditionalIntroduction.mp hc
  have hab := (eval_imp v a b).mp hf
  have hba := (eval_imp v b' a').mp hg
  rw [← eval_eq_of_alike v ha, ← eval_eq_of_alike v hb] at hba
  exact (eval_equiv v a b).mpr (Bool.eq_iff_iff.mpr ⟨hab, hba⟩)

end Inference

/-! ## The catalog -/

namespace Rule

open Formula Inference

theorem mem_catalog (rule : Rule) : rule ∈ catalog := by
  cases rule <;> decide

theorem mem_apply {rule : Rule} {f c : Formula} {g? : Option Formula} :
    c ∈ rule.apply f g? ↔ rule.shape.fits f g? = true ∧ c ∈ rule.conclude f g? := by
  unfold apply
  split
  · next h => simp [h]
  · next h => simp [h]

/-- Whatever a rule concludes is a compound formula or was made to hold. -/
theorem holding_of_mem_conclude {rule : Rule} {f c : Formula} {g? : Option Formula}
    (hc : c ∈ rule.conclude f g?) : c.holding = c := by
  cases rule <;> cases g? <;> simp only [conclude, List.not_mem_nil] at hc
  case modusPonens.some => obtain ⟨_, _, _, _, _, rfl⟩ := mem_modusPonens.mp hc; simp
  case modusTollens.some => obtain ⟨_, _, _, _, rfl⟩ := mem_modusTollens.mp hc; simp
  case hypotheticalSyllogism.some =>
    obtain ⟨_, _, _, _, _, _, _, _, _, rfl⟩ := mem_hypotheticalSyllogism.mp hc; rfl
  case conjunctionIntroduction.some =>
    obtain ⟨_, _, _, _, _, _, _, _, _, rfl⟩ := mem_conjunctionIntroduction.mp hc; rfl
  case proofByCases.some => obtain ⟨_, _, _, _, _, _, _, _, rfl⟩ := mem_proofByCases.mp hc; simp
  case biconditionalIntroduction.some =>
    obtain ⟨_, _, _, _, _, _, _, _, _, rfl⟩ := mem_biconditionalIntroduction.mp hc; rfl
  case conditionalDisjunction.none | conditionalDisjunction.some =>
    rcases mem_conditionalDisjunction.mp hc with ⟨_, _, _, rfl⟩ | ⟨_, _, _, rfl | rfl⟩ <;> rfl
  case contraposition.none | contraposition.some =>
    obtain ⟨_, _, _, rfl⟩ := mem_contraposition.mp hc; rfl
  case exportation.none | exportation.some =>
    obtain ⟨_, _, _, _, rfl | rfl⟩ := mem_exportation.mp hc <;> rfl
  case conjunctionElimination.none | conjunctionElimination.some =>
    obtain ⟨_, _, _, rfl | rfl⟩ := mem_conjunctionElimination.mp hc <;> simp
  case deMorgan.none | deMorgan.some =>
    obtain ⟨_, _, _, ⟨_, rfl⟩ | ⟨_, rfl⟩⟩ := mem_deMorgan.mp hc <;> rfl
  case distribution.none | distribution.some =>
    rcases mem_distribution.mp hc with ⟨_, _, _, hc | hc⟩ | ⟨_, _, _, hc⟩
    · obtain ⟨_, _, _, rfl⟩ := mem_distributeLeft.mp hc; rfl
    · obtain ⟨_, _, _, rfl⟩ := mem_distributeRight.mp hc; rfl
    · obtain ⟨_, _, _, _, _, _, _, rfl⟩ := mem_factor hc; rfl
  case selfReference.none | selfReference.some =>
    obtain ⟨_, _, _, _, rfl⟩ := mem_selfReference.mp hc; simp
  case biconditionalElimination.none | biconditionalElimination.some =>
    obtain ⟨_, _, _, rfl | rfl⟩ := mem_biconditionalElimination.mp hc <;> rfl

theorem holding_of_mem_apply {rule : Rule} {f c : Formula} {g? : Option Formula}
    (hc : c ∈ rule.apply f g?) : c.holding = c :=
  holding_of_mem_conclude (mem_apply.mp hc).2

/-- Every rule is sound. -/
theorem eval_of_mem_apply {rule : Rule} {v : Valuation} {f c : Formula} {g? : Option Formula}
    (faithful : f.IsFaithful) (hf : f.eval v = true) (hg : ∀ g ∈ g?, g.eval v = true)
    (hc : c ∈ rule.apply f g?) : c.eval v = true := by
  have hc := (mem_apply.mp hc).2
  cases g? with
  | none =>
    cases rule <;> simp only [conclude, List.not_mem_nil] at hc
    case conditionalDisjunction => exact eval_of_mem_conditionalDisjunction hf hc
    case contraposition => exact eval_of_mem_contraposition hf hc
    case exportation => exact eval_of_mem_exportation hf hc
    case conjunctionElimination => exact eval_of_mem_conjunctionElimination hf hc
    case deMorgan => exact eval_of_mem_deMorgan hf hc
    case distribution => exact eval_of_mem_distribution hf hc
    case selfReference => exact eval_of_mem_selfReference hf hc
    case biconditionalElimination => exact eval_of_mem_biconditionalElimination hf hc
  | some g =>
    have hg := hg g rfl
    cases rule <;> simp only [conclude] at hc
    case modusPonens => exact eval_of_mem_modusPonens hf hg hc
    case modusTollens => exact eval_of_mem_modusTollens faithful hf hg hc
    case hypotheticalSyllogism => exact eval_of_mem_hypotheticalSyllogism hf hg hc
    case conditionalDisjunction => exact eval_of_mem_conditionalDisjunction hf hc
    case contraposition => exact eval_of_mem_contraposition hf hc
    case exportation => exact eval_of_mem_exportation hf hc
    case conjunctionElimination => exact eval_of_mem_conjunctionElimination hf hc
    case conjunctionIntroduction => exact eval_of_mem_conjunctionIntroduction hf hg hc
    case deMorgan => exact eval_of_mem_deMorgan hf hc
    case distribution => exact eval_of_mem_distribution hf hc
    case proofByCases => exact eval_of_mem_proofByCases hf hg hc
    case selfReference => exact eval_of_mem_selfReference hf hc
    case biconditionalElimination => exact eval_of_mem_biconditionalElimination hf hc
    case biconditionalIntroduction => exact eval_of_mem_biconditionalIntroduction hf hg hc

end Rule

end Turnstile
