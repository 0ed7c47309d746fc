import Turnstile.Proofs.Congruence
import Turnstile.Proofs.Provenance

/-!
The tests of shape, and the look at the stored truth of an atom, only save work. Among premises that
hold, a rule concludes the same without them.

* `Rule.conclude_eq_nil`: nothing follows from premises of the right number that a test turns away;
* `Rule.survey`: the search with no test in it, which tries every fact, or every pair of facts.
  `Rule.search_eq_survey`: it finds the same conclusions in the same order;
* `Rule.tests_lose_nothing`: what this comes to for a rule, for the refutation of an atom, and for
  every search of a session.
-/

namespace Turnstile

namespace Rule

open Formula Inference

variable {rule : Rule}

/-! ## One application -/

theorem fits_of_mem_conclude {f c : Formula} {g? : Option Formula}
    (hnumber : (f :: g?.toList).length = rule.arity)
    (hold : ∀ p ∈ f :: g?.toList, p.holding = p) (hc : c ∈ rule.conclude f g?) :
    rule.shape.fits f g? = true := by
  cases hshape : rule.shape with
  | one test =>
    cases g? with
    | none =>
      rw [← hshape]
      exact fits_of_mem_conclude_one hshape hc
    | some g => simp [arity, hshape, Shape.arity] at hnumber
  | two first second =>
    cases g? with
    | none => simp [arity, hshape, Shape.arity] at hnumber
    | some g =>
      rw [← hshape]
      exact fits_of_mem_conclude_two hshape (hold f (by simp)) (hold g (by simp)) hc

theorem conclude_eq_nil (f : Formula) (g? : Option Formula)
    (hnumber : (f :: g?.toList).length = rule.arity)
    (hold : ∀ p ∈ f :: g?.toList, p.holding = p) (hfits : rule.shape.fits f g? = false) :
    rule.conclude f g? = [] := by
  refine List.eq_nil_iff_forall_not_mem.mpr fun c hc => ?_
  rw [fits_of_mem_conclude hnumber hold hc] at hfits
  cases hfits

theorem apply_eq_conclude (f : Formula) (g? : Option Formula)
    (hnumber : (f :: g?.toList).length = rule.arity)
    (hold : ∀ p ∈ f :: g?.toList, p.holding = p) : rule.apply f g? = rule.conclude f g? := by
  unfold apply
  split
  · rfl
  · next hfits => exact (conclude_eq_nil f g? hnumber hold ((Bool.not_eq_true _).mp hfits)).symm

/-- For a fact that holds, to refute the consequent is to be its negation. -/
theorem apply_modusTollens {f : Formula} (hf : f.holding = f) (a b : Formula) :
    modusTollens.apply f (some (.imp a b)) =
      if f.alike b.negate then [a.negate.holding] else [] := by
  have hold : ∀ p ∈ [f, imp a b], p.holding = p := by simpa using ⟨hf, rfl⟩
  rw [apply_eq_conclude f (some _) rfl hold, ← refutes_eq_alike hf]
  rfl

/-! ## Searching -/

/-- The conclusions of one rule from the given facts, at least one of them fresh, by trying every
fact or every pair of different facts. -/
def survey (rule : Rule) (facts : List (FactId × Fact)) (fresh : FactId → Bool) : List Match :=
  if rule.arity = 1 then
    facts.flatMap fun (id, fact) =>
      if fresh id then (rule.conclude fact.formula none).map fun f => ⟨rule, f, [id]⟩ else []
  else
    facts.flatMap fun (i, a) => facts.flatMap fun (j, b) =>
      if i == j || !(fresh i || fresh j) then []
      else (rule.conclude a.formula (some b.formula)).map fun f => ⟨rule, f, [i, j]⟩

/-- What would have given nothing may as well be left out before. -/
private theorem flatMap_filter_eq {α β : Type} {keep : α → Bool} {g h : α → List β} {l : List α}
    (hkept : ∀ x ∈ l, keep x = true → g x = h x) (hleft : ∀ x ∈ l, keep x = false → h x = []) :
    (l.filter keep).flatMap g = l.flatMap h := by
  induction l with
  | nil => rfl
  | cons x l ih =>
    have ih := ih (fun y hy => hkept y (List.mem_cons_of_mem x hy))
      (fun y hy => hleft y (List.mem_cons_of_mem x hy))
    cases hkeep : keep x with
    | true => simp [hkeep, ih, hkept x List.mem_cons_self hkeep]
    | false => simp [hkeep, ih, hleft x List.mem_cons_self hkeep]

section

variable {facts : List (FactId × Fact)}
  (hold : ∀ x ∈ facts, x.2.formula.holding = x.2.formula) (fresh : FactId → Bool)

include hold

theorem search_eq_survey_one {test : Formula → Bool} (hshape : rule.shape = .one test) :
    rule.search facts fresh = rule.survey facts fresh := by
  have harity : rule.arity = 1 := by rw [arity, hshape]; rfl
  have hheld : ∀ x ∈ facts, ∀ p ∈ [x.2.formula], p.holding = p := by simpa using hold
  rw [search, hshape, survey, if_pos harity]
  refine flatMap_filter_eq ?_ ?_
  · rintro ⟨id, fact⟩ hmem hkeep
    have hfresh := ((Bool.and_eq_true _ _).mp hkeep).1
    dsimp only
    rw [if_pos hfresh, apply_eq_conclude _ none harity.symm (hheld _ hmem)]
  · rintro ⟨id, fact⟩ hmem hleft
    dsimp only
    split
    · next hfresh =>
      have htest : test fact.formula = false := by simpa [hfresh] using hleft
      have hfits : rule.shape.fits fact.formula none = false := by rw [hshape]; exact htest
      rw [conclude_eq_nil _ none harity.symm (hheld _ hmem) hfits, List.map_nil]
    · rfl

theorem search_eq_survey_two {first second : Formula → Bool}
    (hshape : rule.shape = .two first second) :
    rule.search facts fresh = rule.survey facts fresh := by
  have harity : rule.arity = 2 := by rw [arity, hshape]; rfl
  have hheld : ∀ x ∈ facts, ∀ y ∈ facts, ∀ p ∈ [x.2.formula, y.2.formula], p.holding = p := by
    intro x hx y hy
    simpa using ⟨hold x hx, hold y hy⟩
  have hnil : ∀ x ∈ facts, ∀ y ∈ facts, (first x.2.formula && second y.2.formula) = false →
      rule.conclude x.2.formula (some y.2.formula) = [] := by
    intro x hx y hy htest
    refine conclude_eq_nil _ (some _) harity.symm (hheld x hx y hy) ?_
    rw [hshape]
    exact htest
  rw [search, hshape, survey, if_neg (by omega)]
  -- a pair is left out at its first premise or at its second
  refine flatMap_filter_eq ?_ ?_
  · rintro ⟨i, a⟩ ha _
    refine flatMap_filter_eq ?_ ?_
    · rintro ⟨j, b⟩ hb _
      dsimp only
      rw [apply_eq_conclude _ (some _) harity.symm (hheld _ ha _ hb)]
    · rintro ⟨j, b⟩ hb hsecond
      simp [hnil _ ha _ hb (Bool.and_eq_false_iff.mpr (Or.inr hsecond))]
  · rintro ⟨i, a⟩ ha hfirst
    refine List.flatMap_eq_nil_iff.mpr ?_
    rintro ⟨j, b⟩ hb
    simp [hnil _ ha _ hb (Bool.and_eq_false_iff.mpr (Or.inl hfirst))]

theorem search_eq_survey (rule : Rule) : rule.search facts fresh = rule.survey facts fresh := by
  cases hshape : rule.shape with
  | one test => exact search_eq_survey_one hold fresh hshape
  | two first second => exact search_eq_survey_two hold fresh hshape

end

/-- From premises of its number that hold, a rule draws all that it concludes without a test. A fact
that holds refutes a consequent exactly if it is like the negation, so that asking an atom for its
stored truth comes to the same as comparing. Hence a search finds what trying everything finds,
whatever the commands that led to the session. -/
theorem tests_lose_nothing :
    (∀ (rule : Rule) (f : Formula) (g? : Option Formula),
      (f :: g?.toList).length = rule.arity → (∀ p ∈ f :: g?.toList, p.holding = p) →
        rule.apply f g? = rule.conclude f g?) ∧
    (∀ f a b : Formula, f.holding = f →
      (modusTollens.apply f (some (.imp a b)) ≠ [] ↔ f.alike b.negate = true) ∧
        refutes f b = f.alike b.negate) ∧
    (∀ (config : Config) (cs : List Command) (rule : Rule),
      let s := ((Session.start config).performAll cs).value.1
      rule.search s.base.live s.isFresh = rule.survey s.base.live s.isFresh) := by
  refine ⟨fun rule => apply_eq_conclude, ?_, ?_⟩
  · intro f a b hf
    refine ⟨?_, refutes_eq_alike hf b⟩
    rw [apply_modusTollens hf]
    simp
  · intro config cs rule s
    have hgrounded := (Session.reachable_performAll config cs).grounded
    exact search_eq_survey (fun x hlive => hgrounded.holding ⟨x.2, hlive, rfl⟩) _ rule

/-- The rule that joins two atoms asks for known ones, and the consequent refuted below stores a
truth that its sign does not give it. -/
theorem tests_lose_nothing_atoms :
    let a : Formula := .atom "A" false (some true)
    let b : Formula := .atom "B" true (some false)
    let consequent : Formula := .atom "B" false (some false)
    (∀ p ∈ [a, b], p.holding = p) ∧
      conjunctionIntroduction.apply a (some b) = conjunctionIntroduction.conclude a (some b) ∧
      conjunctionIntroduction.conclude a (some b) = [.conj a b] ∧
      modusTollens.apply b (some (.imp a consequent)) ≠ [] := by
  intro a b consequent
  have hold : ∀ p ∈ [a, b], p.holding = p := by simpa using ⟨rfl, rfl⟩
  obtain ⟨hrule, hrefuted, _⟩ := tests_lose_nothing
  refine ⟨hold, hrule .conjunctionIntroduction a (some b) rfl hold, by decide, ?_⟩
  exact (hrefuted b a consequent rfl).1.mpr (by decide)

end Rule

end Turnstile
