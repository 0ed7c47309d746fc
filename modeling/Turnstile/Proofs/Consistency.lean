import Turnstile.Proofs.Soundness

/-!
Sessions whose facts are all true under one valuation. There two atoms of opposite signs never meet,
so that what is held is there as it stands, and only trivial implications can be out of use.

* `Consistent`: such a session. Searching keeps it so, and so does assuming what is true;
* `Consistent.exists_alike`: a true formula that is held is like a stored fact;
* `Consistent.isTrivial_of_not_found`: unless it is a trivial implication, it is found.
-/

namespace Turnstile

/-- Atoms of one name that are both true have the same sign. -/
theorem Formula.alike_of_sameEntry {v : Valuation} {f g : Formula} (h : f.sameEntry g = true)
    (hf : f.eval v = true) (hg : g.eval v = true) : f.alike g = true := by
  cases g with
  | compound => exact (sameEntry_iff_alike rfl).mp h
  | atom name negated truth =>
    obtain ⟨negated', truth', rfl⟩ := sameEntry_atom_iff.mp h
    have hsign : negated' = negated := by
      simp only [eval, bne_iff_ne, ne_eq] at hf hg
      cases hv : v name <;> cases negated <;> cases negated' <;> simp [hv] at hf hg ⊢
    exact alike_atom_iff.mpr ⟨truth, by rw [hsign]⟩

namespace Session

/-- Reached by steps, with nothing in store that is false under the valuation. -/
structure Consistent (v : Valuation) (s : Session) : Prop where
  reachable : s.Reachable
  eval : ∀ {id fact}, s.base.get? id = some fact → fact.formula.eval v = true

variable {v : Valuation} {s t : Session}

/-! ## Along a run -/

theorem consistent_ofHypotheses (config : Config) {hypotheses : List Formula}
    (h : ∀ f ∈ hypotheses, f.eval v = true) :
    (ofHypotheses config hypotheses).value.Consistent v where
  reachable := reachable_ofHypotheses config hypotheses
  eval hget := by
    obtain ⟨f, hf, rfl⟩ := get?_ofHypotheses hget
    exact (Formula.eval_holding v f).trans (h f hf)

theorem Searches.consistent (h : s.Searches t) (hs : s.Consistent v) : t.Consistent v where
  reachable := hs.reachable.trans h.reaches
  eval {id _} hget := by
    have hgrounded := (hs.reachable.trans h.reaches).grounded
    exact hgrounded.eval v id hget fun _ _ _ hp hgiven => hs.eval (h.get?_of_isGiven hp hgiven)

theorem Consistent.assume (hs : s.Consistent v) {a : Formula} (ha : a.eval v = true)
    (g : Formula) : (s.assume a g).value.Consistent v where
  reachable := hs.reachable.trans (.single (.assume s a g))
  eval hget := by
    rcases FactBase.get?_push hget with hold | ⟨_, rfl, _⟩
    · exact hs.eval hold
    · exact (Formula.eval_holding v a).trans ha

theorem contains_assume (s : Session) (a g : Formula) :
    (s.assume a g).value.base.contains a = true := by
  rw [assume_base, ← FactBase.contains_holding]
  exact FactBase.contains_push s.base (.assumption a)

/-! ## What is held -/

theorem Reachable.isLive_of_not_trivial (hs : s.Reachable) {id : FactId} {fact : Fact}
    (hget : s.base.get? id = some fact) (htrivial : fact.formula.isTrivial = false) :
    s.base.isLive id = true := by
  cases hlive : s.base.isLive id with
  | true => rfl
  | false => rw [hs.prunesTrivial hget hlive] at htrivial; cases htrivial

namespace Consistent

theorem exists_alike (hs : s.Consistent v) {f : Formula} (hf : f.eval v = true)
    (hheld : s.base.contains f = true) :
    ∃ id fact, s.base.get? id = some fact ∧ fact.formula.alike f = true := by
  obtain ⟨id, fact, hget, hsame⟩ := FactBase.contains_iff.mp hheld
  exact ⟨id, fact, hget, Formula.alike_of_sameEntry hsame (hs.eval hget) hf⟩

theorem exists_live (hs : s.Consistent v) {f : Formula} (hf : f.eval v = true)
    (hheld : s.base.contains f = true) (htrivial : f.isTrivial = false) :
    ∃ id fact, (id, fact) ∈ s.base.live ∧ fact.formula.alike f = true := by
  obtain ⟨id, fact, hget, halike⟩ := hs.exists_alike hf hheld
  refine ⟨id, fact, FactBase.mem_live.mpr ⟨hget, ?_⟩, halike⟩
  refine hs.reachable.isLive_of_not_trivial hget (Bool.eq_false_iff.mpr fun h => ?_)
  rw [Formula.isTrivial_of_alike halike h] at htrivial
  cases htrivial

theorem isTrivial_of_not_found (hs : s.Consistent v) {f : Formula} (hf : f.eval v = true)
    (hheld : s.base.contains f = true) (hfind : s.base.find? f = none) : f.isTrivial = true := by
  refine (Bool.not_eq_false _).mp fun htrivial => ?_
  obtain ⟨id, fact, hlive, halike⟩ := hs.exists_live hf hheld htrivial
  obtain ⟨hget, hlive⟩ := FactBase.mem_live.mp hlive
  rw [hs.reachable.distinct.find?_eq_some_iff.mpr ⟨fact, hget, hlive, halike⟩] at hfind
  cases hfind

end Consistent

end Session

end Turnstile
