import Turnstile.Proofs.Frontier
import Turnstile.Proofs.Soundness

/-!
The search is complete for definite Horn problems, up to its bounds.

* `FactBase.Saturated`: a store that is closed under the rules and whose facts all hold when every
  atom is true. Its atoms make a valuation, `FactBase.atomsHeld`;
* `Saturated.eval_of_isDefinite`: the definite formulas it holds are true there. An implication from
  a conjunction is used by exportation and modus ponens, one atom at a time, and one that went out
  of use is true in any case;
* `horn_complete`: what definite hypotheses entail is proved, unless a bound stops the search.
-/

namespace Turnstile

namespace Formula

/-- Made from plain atoms by conjunction. -/
inductive IsConjTree : Formula → Prop
  | atom (name : String) (truth : Truth) : IsConjTree (.atom name false truth)
  | conj {a b : Formula} (ha : IsConjTree a) (hb : IsConjTree b) : IsConjTree (.conj a b)

/-- A conjunction tree, or an implication from one to another. -/
inductive IsDefinite : Formula → Prop
  | tree {f : Formula} (h : IsConjTree f) : IsDefinite f
  | imp {a c : Formula} (ha : IsConjTree a) (hc : IsConjTree c) : IsDefinite (.imp a c)

/-- A plain atom, behind any number of conjunction trees as antecedents. -/
inductive IsDefiniteGoal : Formula → Prop
  | atom (name : String) (truth : Truth) : IsDefiniteGoal (.atom name false truth)
  | imp {a c : Formula} (ha : IsConjTree a) (hc : IsDefiniteGoal c) : IsDefiniteGoal (.imp a c)

/-! ## Where every atom is true -/

def allTrue : Valuation := fun _ => true

theorem IsConjTree.eval_allTrue {f : Formula} (h : f.IsConjTree) : f.eval allTrue = true := by
  induction h with
  | atom name truth => rfl
  | conj _ _ iha ihb => exact (eval_conj allTrue _ _).mpr ⟨iha, ihb⟩

theorem IsDefinite.eval_allTrue {f : Formula} (h : f.IsDefinite) : f.eval allTrue = true := by
  cases h with
  | tree h => exact h.eval_allTrue
  | imp _ hc => exact (eval_imp allTrue _ _).mpr fun _ => hc.eval_allTrue

end Formula

namespace FactBase

structure Saturated (b : FactBase) : Prop where
  closed : ∀ {m}, b.Concludes m → b.contains m.formula = true
  prunesTrivial : b.PrunesTrivial
  grounded : b.Grounded
  positive : ∀ {id fact}, b.get? id = some fact → fact.formula.eval Formula.allTrue = true

/-- Makes true the atoms that stand in the store. -/
def atomsHeld (b : FactBase) : Valuation := fun name => b.contains (.var name)

/-- Whatever truth is written on it, a plain atom is true there just if it is held. -/
theorem eval_atom_atomsHeld (b : FactBase) (name : String) (truth : Truth) :
    (Formula.atom name false truth).eval b.atomsHeld = b.contains (.atom name false truth) := by
  have halike : (Formula.var name).alike (.atom name false truth) = true :=
    Formula.alike_atom_iff.mpr ⟨truth, rfl⟩
  rw [Formula.eval, Bool.bne_false]
  exact Bool.eq_iff_iff.mpr
    ⟨contains_of_alike (Formula.alike_symm halike), contains_of_alike halike⟩

namespace Saturated

variable {b : FactBase} (hb : b.Saturated)

include hb

/-- A compound formula that is held and not trivial is in use, up to the order of operands. -/
theorem exists_live {f : Formula} (hf : b.contains f = true) (hcompound : f.atomName? = none)
    (htrivial : f.isTrivial = false) :
    ∃ id g, Lists b.live id g ∧ f.alike g = true := by
  obtain ⟨id, fact, hget, hsame⟩ := contains_iff.mp hf
  have halike := (Formula.sameEntry_iff_alike hcompound).mp hsame
  refine ⟨id, fact.formula, ⟨fact, mem_live.mpr ⟨hget, ?_⟩, rfl⟩, Formula.alike_symm halike⟩
  cases hlive : b.isLive id with
  | true => rfl
  | false =>
    rw [Formula.isTrivial_of_alike halike (hb.prunesTrivial hget hlive)] at htrivial
    cases htrivial

/-- Negated atoms never hold in such a store, and atoms stay in use. -/
theorem exists_live_atom {name : String} {truth : Truth}
    (h : b.contains (.atom name false truth) = true) :
    ∃ id, Lists b.live id (.atom name false (some true)) := by
  obtain ⟨id, fact, hget, hsame⟩ := contains_iff.mp h
  obtain ⟨negated, truth', hfact⟩ := Formula.sameEntry_atom_iff.mp hsame
  have hpositive := hb.positive hget
  have hholding := (hb.grounded hget).holding
  have hlive : b.isLive id = true := by
    cases hlive : b.isLive id with
    | true => rfl
    | false =>
      have htrivial := hb.prunesTrivial hget hlive
      rw [hfact] at htrivial
      cases htrivial
  rw [hfact] at hpositive hholding
  cases negated with
  | true => cases hpositive
  | false =>
    refine ⟨id, fact, mem_live.mpr ⟨hget, hlive⟩, ?_⟩
    rw [hfact, ← hholding]
    rfl

/-! ## The rules that matter -/

theorem contains_conj {a c : Formula} (h : b.contains (.conj a c) = true) :
    b.contains a = true ∧ b.contains c = true := by
  obtain ⟨id, g, hlive, halike⟩ := hb.exists_live h rfl rfl
  obtain ⟨a', c', rfl, pairing⟩ := Formula.alike_compound_iff.mp halike
  have part : ∀ d : Formula, (d = a' ∨ d = c') → b.contains d = true := by
    intro d hd
    rw [← contains_holding]
    refine hb.closed (m := ⟨.conjunctionElimination, d.holding, [id]⟩) (.one hlive ?_)
    refine Rule.mem_apply.mpr ⟨rfl, Inference.mem_conjunctionElimination.mpr ⟨a', c', rfl, ?_⟩⟩
    exact hd.imp (congrArg _) (congrArg _)
  have ha' := part a' (Or.inl rfl)
  have hc' := part c' (Or.inr rfl)
  rcases pairing with ⟨ha, hc⟩ | ⟨_, ha, hc⟩
  · exact ⟨contains_of_alike ha ha', contains_of_alike hc hc'⟩
  · exact ⟨contains_of_alike ha hc', contains_of_alike hc ha'⟩

/-- Modus ponens, by an atom. An implication out of use is one to the atom itself. -/
theorem contains_of_imp_atom {name : String} {truth : Truth} {c : Formula}
    (h : b.contains (.imp (.atom name false truth) c) = true)
    (hname : b.contains (.atom name false truth) = true) : b.contains c = true := by
  cases htrivial : (Formula.imp (.atom name false truth) c).isTrivial with
  | true => exact contains_of_alike (Formula.alike_symm htrivial) hname
  | false =>
    obtain ⟨i, hi⟩ := hb.exists_live_atom hname
    obtain ⟨j, g, hj, halike⟩ := hb.exists_live h rfl htrivial
    obtain ⟨a', c', rfl, ⟨ha, hc⟩ | ⟨hop, _⟩⟩ := Formula.alike_compound_iff.mp halike
    · obtain ⟨truth', rfl⟩ := Formula.alike_atom_iff.mp ha
      refine contains_of_alike hc ?_
      rw [← contains_holding]
      refine hb.closed (m := ⟨.modusPonens, c'.holding, [i, j]⟩) (.two hi hj ?_ ?_)
      · rintro rfl
        cases lists_live_inj hi hj
      · refine Rule.mem_apply.mpr ⟨rfl, Inference.mem_modusPonens.mpr ⟨_, c', rfl, ?_, ?_, rfl⟩⟩
        · exact Or.inr rfl
        · exact Formula.alike_atom_iff.mpr ⟨_, rfl⟩
    · cases hop

/-- Exportation, in either order. -/
theorem contains_of_imp_conj {a d c : Formula} (h : b.contains (.imp (.conj a d) c) = true)
    (htrivial : (Formula.imp (.conj a d) c).isTrivial = false) :
    b.contains (.imp a (.imp d c)) = true := by
  obtain ⟨id, g, hlive, halike⟩ := hb.exists_live h rfl htrivial
  obtain ⟨x, c', rfl, ⟨hx, hc⟩ | ⟨hop, _⟩⟩ := Formula.alike_compound_iff.mp halike
  · obtain ⟨a', d', rfl, pairing⟩ := Formula.alike_compound_iff.mp hx
    have exported : ∀ f : Formula, (f = .imp a' (.imp d' c') ∨ f = .imp d' (.imp a' c')) →
        b.contains f = true := by
      intro f hf
      refine hb.closed (m := ⟨.exportation, f, [id]⟩) (.one hlive ?_)
      exact Rule.mem_apply.mpr ⟨rfl, Inference.mem_exportation.mpr ⟨a', d', c', rfl, hf⟩⟩
    -- the operands of the antecedent may stand in the other order
    have nested : ∀ {a' d' : Formula}, a.alike a' = true → d.alike d' = true →
        (Formula.imp a (.imp d c)).alike (.imp a' (.imp d' c')) = true := by
      intro a' d' ha hd
      refine Formula.alike_compound_iff.mpr ⟨_, _, rfl, Or.inl ⟨ha, ?_⟩⟩
      exact Formula.alike_compound_iff.mpr ⟨_, _, rfl, Or.inl ⟨hd, hc⟩⟩
    rcases pairing with ⟨ha, hd⟩ | ⟨_, ha, hd⟩
    · exact contains_of_alike (nested ha hd) (exported _ (Or.inl rfl))
    · exact contains_of_alike (nested ha hd) (exported _ (Or.inr rfl))
  · cases hop

/-! ## The valuation of the atoms held -/

theorem eval_of_isConjTree {f : Formula} (htree : f.IsConjTree) (hf : b.contains f = true) :
    f.eval b.atomsHeld = true := by
  induction htree with
  | atom name truth =>
    rw [eval_atom_atomsHeld]
    exact hf
  | conj _ _ iha ihb =>
    obtain ⟨ha, hc⟩ := hb.contains_conj hf
    exact (Formula.eval_conj _ _ _).mpr ⟨iha ha, ihb hc⟩

/-- By induction on the antecedent, for all consequents that are true if held: exportation makes an
implication of the consequent. -/
theorem eval_imp_of_isConjTree {a : Formula} (htree : a.IsConjTree) :
    ∀ {c : Formula}, (b.contains c = true → c.eval b.atomsHeld = true) →
      b.contains (.imp a c) = true → (Formula.imp a c).eval b.atomsHeld = true := by
  induction htree with
  | atom name truth =>
    intro c hc himp
    rw [Formula.eval_imp, eval_atom_atomsHeld]
    exact fun hname => hc (hb.contains_of_imp_atom himp hname)
  | @conj a d _ _ iha ihd =>
    intro c hc himp
    cases htrivial : (Formula.imp (.conj a d) c).isTrivial with
    | true =>
      rw [Formula.eval_imp, Formula.eval_eq_of_alike _ htrivial]
      exact id
    | false =>
      have hnested := iha (ihd hc) (hb.contains_of_imp_conj himp htrivial)
      simp only [Formula.eval_imp, Formula.eval_conj] at hnested ⊢
      exact fun h => hnested h.1 h.2

theorem eval_of_isDefinite {f : Formula} (hdefinite : f.IsDefinite) (hf : b.contains f = true) :
    f.eval b.atomsHeld = true := by
  cases hdefinite with
  | tree htree => exact hb.eval_of_isConjTree htree hf
  | imp ha hc => exact hb.eval_imp_of_isConjTree ha (hb.eval_of_isConjTree hc) hf

end Saturated

end FactBase

namespace Session

/-! ## Along a run -/

/-- A session that holds definite premises and was given nothing that may be false where every
atom is true. -/
structure Pursues (premises : List Formula) (s : Session) : Prop where
  reachable : s.Reachable
  definite : ∀ f ∈ premises, f.IsDefinite
  held : ∀ f ∈ premises, s.base.contains f = true
  positive : ∀ i p, s.base.get? i = some p → p.isGiven = true →
    p.formula.eval Formula.allTrue = true

theorem pursues_ofHypotheses (config : Config) {hypotheses : List Formula}
    (h : ∀ f ∈ hypotheses, f.IsDefinite) :
    (ofHypotheses config hypotheses).value.Pursues hypotheses where
  reachable := reachable_ofHypotheses config hypotheses
  definite := h
  held _ hf := contains_ofHypotheses hf
  positive i p hp _ := by
    obtain ⟨f, hf, rfl⟩ := get?_ofHypotheses hp
    exact (Formula.eval_holding _ f).trans (h f hf).eval_allTrue

theorem Searches.pursues {premises : List Formula} {s t : Session} (h : s.Searches t)
    (hs : s.Pursues premises) : t.Pursues premises where
  reachable := hs.reachable.trans h.reaches
  definite := hs.definite
  held f hf := h.reaches.grows.contains (hs.held f hf)
  positive i p hp hgiven := hs.positive i p (h.get?_of_isGiven hp hgiven) hgiven

theorem Pursues.assume {premises : List Formula} {s : Session} (hs : s.Pursues premises)
    {a : Formula} (ha : a.IsConjTree) (g : Formula) :
    (s.assume a g).value.Pursues (a :: premises) where
  reachable := hs.reachable.trans (.single (.assume s a g))
  definite := List.forall_mem_cons.mpr ⟨.tree ha, hs.definite⟩
  held := by
    refine List.forall_mem_cons.mpr ⟨?_, fun f hf => ?_⟩
    · rw [assume_base, ← FactBase.contains_holding]
      exact FactBase.contains_push s.base (.assumption a)
    · exact (FactBase.grows_push s.base (.assumption a)).contains (hs.held f hf)
  positive i p hp hgiven := by
    rcases FactBase.get?_push hp with hold | ⟨_, rfl, _⟩
    · exact hs.positive i p hold hgiven
    · exact (Formula.eval_holding _ a).trans ha.eval_allTrue

theorem SaturatesTo.saturated {premises : List Formula} {goal : Formula} {s t : Session}
    (h : SaturatesTo goal s t .closed) (hs : s.Pursues premises) : t.base.Saturated := by
  have ht := h.searches.pursues hs
  exact {
    closed := h.closed_under_rules hs.reachable.explored
    prunesTrivial := ht.reachable.prunesTrivial
    grounded := ht.reachable.grounded
    positive := fun {id fact} hget =>
      ht.reachable.grounded.eval _ id hget fun i _ => ht.positive i }

/-- An atom that the premises entail is found by any search that no bound stops: otherwise the
atoms held would make a valuation in which the premises are true and it is false. -/
theorem SaturatesTo.exists_find?_atom {premises : List Formula} {s t : Session}
    {ending : Ending} {name : String} {truth : Truth}
    (h : SaturatesTo (.atom name false truth) s t ending)
    (hending : ∀ limit, ending ≠ .limitExceeded limit) (hs : s.Pursues premises)
    (hentails : Formula.Entails premises (.atom name false truth)) :
    ∃ id, t.base.find? (.atom name false truth) = some id := by
  cases ending with
  | limitExceeded limit => exact absurd rfl (hending limit)
  | goalFound id => exact ⟨id, h.find?_of_goalFound⟩
  | closed =>
    have hsaturated := h.saturated hs
    have ht := h.searches.pursues hs
    have htrue := hentails t.base.atomsHeld fun f hf =>
      hsaturated.eval_of_isDefinite (ht.definite f hf) (ht.held f hf)
    rw [FactBase.eval_atom_atomsHeld] at htrue
    obtain ⟨id, fact, hlive, hfact⟩ := hsaturated.exists_live_atom htrue
    obtain ⟨hget, hlive⟩ := FactBase.mem_live.mp hlive
    refine ⟨id, ht.reachable.distinct.find?_eq_some_iff.mpr ⟨fact, hget, hlive, ?_⟩⟩
    rw [hfact]
    exact Formula.alike_atom_iff.mpr ⟨truth, rfl⟩

/-- By induction on the run. Each assumption is one more premise, and the goal gets shorter. -/
theorem ProvesTo.ne_notDerivable {goal : Formula} {s t : Session}
    {outcome : Outcome} (h : ProvesTo goal s t outcome) :
    ∀ {premises : List Formula}, s.Pursues premises → goal.IsDefiniteGoal →
      Formula.Entails premises goal → outcome ≠ .notDerivable := by
  induction h with
  | found => exact fun _ _ _ => nofun
  | stopped => exact fun _ _ _ => nofun
  | @stuck goal s t ending hsat hending hfind hgoal =>
    intro premises hs hdefinite hentails
    cases hdefinite with
    | imp => cases hgoal
    | atom name truth =>
      obtain ⟨id, hid⟩ := hsat.exists_find?_atom hending hs hentails
      have hdistinct := (hsat.searches.pursues hs).reachable.distinct
      have hpruned := hdistinct.find?_prune hid rfl
      rw [← prune_base, hfind] at hpruned
      cases hpruned
  | @assumed a c s t u ending outcome hsat _ _ _ ih =>
    intro premises hs hdefinite hentails
    cases hdefinite with
    | imp ha hc =>
      refine ih ((hsat.searches_prune.pursues hs).assume ha c) hc fun v hv => ?_
      obtain ⟨hav, hpremises⟩ := List.forall_mem_cons.mp hv
      exact (Formula.eval_imp v a c).mp (hentails v hpremises) hav

/-- A definite Horn problem whose hypotheses entail its conclusion is proved, unless a bound stops
the search. -/
theorem horn_complete (config : Config) {hypotheses : List Formula} {conclusion : Formula}
    (hdefinite : ∀ h ∈ hypotheses, h.IsDefinite) (hgoal : conclusion.IsDefiniteGoal)
    (hentails : Formula.Entails hypotheses conclusion) :
    (∃ proof, (solve config hypotheses conclusion).value.2 = .proved proof) ∨
      ∃ limit, (solve config hypotheses conclusion).value.2 = .limitExceeded limit := by
  have hne := (provesTo_prove conclusion (ofHypotheses config hypotheses).value).ne_notDerivable
    (pursues_ofHypotheses config hdefinite) hgoal hentails
  cases houtcome : (solve config hypotheses conclusion).value.2 with
  | proved proof => exact Or.inl ⟨proof, rfl⟩
  | limitExceeded limit => exact Or.inr ⟨limit, rfl⟩
  | notDerivable => exact absurd houtcome hne

/-- The antecedents come in another order and grouping than the hypothesis has them. -/
theorem horn_complete_regrouped :
    let h : Formula := .imp (.conj (.var "A") (.conj (.var "B") (.var "C"))) (.var "D")
    let g : Formula := .imp (.conj (.var "B") (.var "A")) (.imp (.var "C") (.var "D"))
    h.IsDefinite ∧ g.IsDefiniteGoal ∧ Formula.Entails [h] g ∧
      ((∃ proof, (solve .standard [h] g).value.2 = .proved proof) ∨
        ∃ limit, (solve .standard [h] g).value.2 = .limitExceeded limit) := by
  intro h g
  have hdefinite : h.IsDefinite :=
    .imp (.conj (.atom _ _) (.conj (.atom _ _) (.atom _ _))) (.atom _ _)
  have hgoal : g.IsDefiniteGoal :=
    .imp (.conj (.atom _ _) (.atom _ _)) (.imp (.atom _ _) (.atom _ _))
  have hentails : Formula.Entails [h] g := by
    intro v hv
    have hh := hv h (List.mem_singleton.mpr rfl)
    simp only [h, g, Formula.eval_imp, Formula.eval_conj] at hh ⊢
    exact fun hba hc => hh ⟨hba.2, hba.1, hc⟩
  exact ⟨hdefinite, hgoal, hentails,
    horn_complete .standard (List.forall_mem_singleton.mpr hdefinite) hgoal hentails⟩

end Session

end Turnstile
