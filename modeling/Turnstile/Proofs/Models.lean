import Turnstile.Proofs.Soundness

/-!
What pruning does to the models of a session, that is, to the valuations that make its facts true.

* `Formula.eval_of_isTrivial`: a trivial implication is true under every valuation, and its negation
  under none. Pruning takes both out of use;
* `Reachable.given_iff`: the given facts are true just where the live ones are, unless a negated
  trivial implication went out of use, for then they are true nowhere;
* `keepsModels_iff`: so a session keeps its models exactly as long as no such negation is pruned.
  In `not_keepsModels_contradiction` one is.
-/

namespace Turnstile

theorem Formula.eval_of_isTrivial {f : Formula} (h : f.isTrivial = true) (v : Valuation) :
    f.eval v = !f.isNegated := by
  unfold isTrivial at h
  split at h
  · next negated l r =>
    rw [eval, eval_eq_of_alike v h, isNegated]
    cases r.eval v <;> cases negated <;> rfl
  · cases h

namespace Session

/-- Live and given facts have the same models, and what went out of use is true in any case. -/
structure KeepsModels (s : Session) : Prop where
  models : ∀ v : Valuation,
    (∀ id fact, (id, fact) ∈ s.base.live → fact.formula.eval v = true) ↔
      ∀ id fact, s.base.get? id = some fact → fact.isGiven = true → fact.formula.eval v = true
  pruned : ∀ id fact, s.base.get? id = some fact → s.base.isLive id = false →
    ∀ v : Valuation, fact.formula.eval v = true

/-- No negated trivial implication went out of use. -/
def SparesNegations (s : Session) : Prop :=
  ∀ id fact, s.base.get? id = some fact → s.base.isLive id = false →
    fact.formula.isNegated = false

theorem Reachable.eval_of_pruned {s : Session} (hs : s.Reachable) {id : FactId} {fact : Fact}
    (hget : s.base.get? id = some fact) (hlive : s.base.isLive id = false) (v : Valuation) :
    fact.formula.eval v = !fact.formula.isNegated :=
  Formula.eval_of_isTrivial (hs.prunesTrivial hget hlive) v

/-- Where the given facts are true all facts are, so a negated trivial implication among them leaves
the given facts without a model. -/
theorem Reachable.given_iff {s : Session} (hs : s.Reachable) (v : Valuation) :
    (∀ id fact, s.base.get? id = some fact → fact.isGiven = true → fact.formula.eval v = true) ↔
      (∀ id fact, (id, fact) ∈ s.base.live → fact.formula.eval v = true) ∧ s.SparesNegations := by
  constructor
  · intro given
    have all : ∀ {id fact}, s.base.get? id = some fact → fact.formula.eval v = true :=
      fun {id} _ hget => hs.grounded.eval v id hget fun i _ => given i
    refine ⟨fun id fact hmem => all (FactBase.mem_live.mp hmem).1, fun id fact hget hlive => ?_⟩
    have htrue := all hget
    rw [hs.eval_of_pruned hget hlive v] at htrue
    exact (Bool.not_eq_true' _).mp htrue
  · rintro ⟨live, spared⟩ id fact hget _
    cases hlive : s.base.isLive id with
    | true => exact live id fact (FactBase.mem_live.mpr ⟨hget, hlive⟩)
    | false => rw [hs.eval_of_pruned hget hlive v, spared id fact hget hlive]; rfl

/-- Whatever the commands, the models are kept exactly if no negated trivial implication went out
of use. -/
theorem keepsModels_iff (config : Config) (cs : List Command) :
    ((start config).performAll cs).value.1.KeepsModels ↔
      ((start config).performAll cs).value.1.SparesNegations := by
  have hs := reachable_performAll config cs
  generalize ((start config).performAll cs).value.1 = s at hs ⊢
  constructor
  · intro hkeeps id fact hget hlive
    have htrue := hkeeps.pruned id fact hget hlive fun _ => true
    rw [hs.eval_of_pruned hget hlive] at htrue
    exact (Bool.not_eq_true' _).mp htrue
  · intro spared
    refine ⟨fun v => ?_, fun id fact hget hlive v => ?_⟩
    · rw [hs.given_iff v]
      exact ⟨fun live => ⟨live, spared⟩, And.left⟩
    · rw [hs.eval_of_pruned hget hlive v, spared id fact hget hlive]
      rfl

/-- From the hypothesis `¬(A → A)`, which no valuation makes true, an attempt at `B` leaves no live
fact at all, so that every valuation makes them true. -/
theorem not_keepsModels_contradiction :
    let cs : List Command :=
      [.add (Formula.imp (.var "A") (.var "A")).negate, .prove (.var "B")]
    ¬ ((start .standard).performAll cs).value.1.KeepsModels := by
  intro cs hkeeps
  have hlive : ((start .standard).performAll cs).value.1.base.live = [] := by decide +kernel
  have hget : ((start .standard).performAll cs).value.1.base.get? 0 =
      some (.hypothesis (Formula.imp (.var "A") (.var "A")).negate) := by
    decide +kernel
  have given := (hkeeps.models fun _ => true).mp fun id fact hmem => by
    rw [hlive] at hmem
    cases hmem
  exact absurd (given 0 _ hget rfl) (by decide)

end Session

end Turnstile
