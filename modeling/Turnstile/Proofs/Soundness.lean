import Turnstile.Proofs.Provenance

/-!
Nothing false is ever stored or proved.

* `FactBase.Grounded.eval`: in a grounded store a fact is true wherever the facts given up to it
  are;
* `ProvesTo.eval`: what a session proves is true wherever its hypotheses and its earlier assumptions
  are. The assumptions made on the way are discharged;
* `session_sound`: both, for every session that commands can reach, and for problems.
-/

namespace Turnstile

/-- What is drawn from true formulas is true, if they store no truths against their signs. -/
theorem Match.DrawnFrom.eval {known : Nat → Formula → Prop} {m : Match} {v : Valuation}
    (h : m.DrawnFrom known) (hknown : ∀ {i f}, known i f → f.eval v = true ∧ f.IsFaithful) :
    m.formula.eval v = true := by
  cases h with
  | one hf hc => exact Rule.eval_of_mem_apply (hknown hf).2 (hknown hf).1 (by simp) hc
  | two hf hg _ hc =>
    refine Rule.eval_of_mem_apply (hknown hf).2 (hknown hf).1 ?_ hc
    rintro g' ⟨⟩
    exact (hknown hg).1

/-- By induction on the number: what a fact is inferred from stands before it. -/
theorem FactBase.Grounded.eval {b : FactBase} (hb : b.Grounded) (v : Valuation) (id : FactId) :
    ∀ {fact : Fact}, b.get? id = some fact →
      (∀ i ≤ id, ∀ p, b.get? i = some p → p.isGiven = true → p.formula.eval v = true) →
        fact.formula.eval v = true := by
  induction id using Nat.strongRecOn with
  | ind id ih =>
    intro fact hget given
    -- a fact that stands before this one is true, and pinned as all stored facts are
    have before : ∀ {i f}, b.Before id i f → f.eval v = true ∧ f.IsFaithful := by
      rintro i f ⟨hlt, p, hp, rfl⟩
      refine ⟨ih i hlt hp fun j hj => given j (Nat.le_trans hj (Nat.le_of_lt hlt)), ?_⟩
      exact Formula.isFaithful_of_holding (hb hp).holding
    cases hb hget with
    | hypothesis f => exact given id (Nat.le_refl id) _ hget rfl
    | assumption f => exact given id (Nat.le_refl id) _ hget rfl
    | inference hm => exact hm.eval before

namespace Session

/-- A goal found by searching is true wherever the facts given before the search are. -/
theorem eval_of_find?_prune {s t : Session} {goal : Formula} {ending : Ending} {id : FactId}
    (hs : s.Reachable) (hsat : SaturatesTo goal s t ending)
    (hfind : t.prune.value.base.find? goal = some id) {v : Valuation}
    (given : ∀ i p, s.base.get? i = some p → p.isGiven = true → p.formula.eval v = true) :
    goal.eval v = true := by
  have hsearch := hsat.searches_prune
  obtain ⟨fact, hget, _, halike⟩ := FactBase.find?_eq_some hfind
  rw [← Formula.eval_eq_of_alike v halike]
  have hgrounded := (hs.trans hsearch.reaches).grounded
  refine hgrounded.eval v id hget fun i _ p hp hgiven => ?_
  exact given i p (hsearch.get?_of_isGiven hp hgiven) hgiven

/-- By induction on the run. Where an antecedent was assumed, it is true and the rest of the run
proves the consequent, or it is false and the implication holds at once. -/
theorem ProvesTo.eval {goal : Formula} {s t : Session} {outcome : Outcome}
    (h : ProvesTo goal s t outcome) (houtcome : outcome.isProved = true) (hs : s.Reachable)
    {v : Valuation}
    (given : ∀ i p, s.base.get? i = some p → p.isGiven = true → p.formula.eval v = true) :
    goal.eval v = true := by
  induction h with
  | found hsat hfind => exact eval_of_find?_prune hs hsat hfind given
  | stopped => cases houtcome
  | stuck => cases houtcome
  | @assumed a c s t u ending outcome hsat _ _ _ ih =>
    have hsearch := hsat.searches_prune
    rw [Formula.eval_imp]
    intro ha
    have hassumed := (hs.trans hsearch.reaches).trans (.single (.assume _ a c))
    refine ih houtcome hassumed fun i p hp hgiven => ?_
    rcases FactBase.get?_push hp with hold | ⟨_, rfl, _⟩
    · exact given i p (hsearch.get?_of_isGiven hold hgiven) hgiven
    · exact (Formula.eval_holding v a).trans ha

/-- In a session driven by commands every fact follows from the facts given up to it, and every
goal proved follows from the facts given before. A problem proved is one whose conclusion its
hypotheses entail. -/
theorem session_sound (config : Config) (cs : List Command) :
    let s := ((start config).performAll cs).value.1
    (∀ id fact, s.base.get? id = some fact → ∀ v : Valuation,
      (∀ i ≤ id, ∀ p, s.base.get? i = some p → p.isGiven = true → p.formula.eval v = true) →
        fact.formula.eval v = true) ∧
    (∀ goal proof, (s.prove goal).value.2 = .proved proof → ∀ v : Valuation,
      (∀ i p, s.base.get? i = some p → p.isGiven = true → p.formula.eval v = true) →
        goal.eval v = true) ∧
    (∀ hypotheses conclusion proof,
      (solve config hypotheses conclusion).value.2 = .proved proof →
        Formula.Entails hypotheses conclusion) := by
  intro s
  have hs : s.Reachable := reachable_performAll config cs
  refine ⟨fun id fact hget v given => hs.grounded.eval v id hget given, ?_, ?_⟩
  · intro goal proof hproved v given
    exact (provesTo_prove goal s).eval (Outcome.isProved_iff.mpr ⟨proof, hproved⟩) hs given
  · intro hypotheses conclusion proof hproved v hv
    have hstart := reachable_ofHypotheses config hypotheses
    refine (provesTo_prove conclusion _).eval (Outcome.isProved_iff.mpr ⟨proof, hproved⟩) hstart
      fun i p hp _ => ?_
    obtain ⟨h, hh, rfl⟩ := get?_ofHypotheses hp
    exact (Formula.eval_holding v h).trans (hv h hh)

/-- A session that is asked for `A → D` has assumed `A`. From that and `A → B` it then proves
`C → B`, by assuming `C`. -/
theorem session_sound_after_assuming :
    let s := ((start .standard).performAll
      [.add (.imp (.var "A") (.var "B")), .prove (.imp (.var "A") (.var "D"))]).value.1
    let v := Formula.makingTrue ["A", "B"]
    (∀ i p, s.base.get? i = some p → p.isGiven = true → p.formula.eval v = true) ∧
      (∃ proof, (s.prove (.imp (.var "C") (.var "B"))).value.2 = .proved proof) ∧
        (Formula.imp (.var "C") (.var "B")).eval v = true := by
  intro s v
  have given : ∀ i p, s.base.get? i = some p → p.isGiven = true → p.formula.eval v = true := by
    have checked : ∀ i < s.base.size,
        (s.base.get? i).all (fun p => !p.isGiven || p.formula.eval v) = true := by
      decide +kernel
    intro i p hp hgiven
    have hi := checked i (FactBase.lt_size_of_get? hp)
    rw [hp] at hi
    simpa [hgiven] using hi
  have found : (s.prove (.imp (.var "C") (.var "B"))).value.2.isProved = true := by
    decide +kernel
  obtain ⟨proof, hproved⟩ := Outcome.isProved_iff.mp found
  exact ⟨given, ⟨proof, hproved⟩, (session_sound _ _).2.1 _ proof hproved v given⟩

end Session

end Turnstile
