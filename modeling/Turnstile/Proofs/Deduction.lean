import Turnstile.Proofs.Consistency
import Turnstile.Proofs.Derivation
import Turnstile.Proofs.Frontier

/-!
The deduction method: a search for `A → B` against a search for `B` with `A` among the hypotheses.

The first prunes between its stages, and what is pruned can neither be used nor be found again.

* `FactBase.Drained`: what one premise gives was concluded from every fact before it went out of
  use;
* `Settled`: a session where a search has closed. It holds whatever is derived from what it holds
  (`Settled.contains_of_derives`), its pruned facts notwithstanding;
* `not_notDerivable_of_derives`: stage by stage, a search does not give up on a goal if what remains
  of it is derived from what is held and what will be assumed;
* `solve_imp_ne_notDerivable`: so if `B` is proved with the hypothesis `A`, the search for `A → B`
  does not end with the answer that it is not derivable, provided that the hypotheses and all
  assumptions have a common model and that the proof detaches no trivial implication.
  `deduction_fails` shows what happens otherwise.
-/

namespace Turnstile

open Formula

namespace FactBase

/-- Each conclusion that one premise gives is held, if the premise is out of use. -/
def Drained (b : FactBase) : Prop :=
  ∀ ⦃id fact⦄, b.get? id = some fact → b.isLive id = false →
    ∀ ⦃rule : Rule⦄ ⦃c⦄, c ∈ rule.apply fact.formula none → b.contains c = true

theorem Adds.drained {b c : FactBase} (h : b.Adds c) (hb : b.Drained) : c.Drained := by
  intro id fact hget hlive rule f hf
  obtain ⟨hget, hlive⟩ := h.spared hget hlive
  exact h.contains (hb hget hlive hf)

end FactBase

namespace Session

variable {v : Valuation} {s t : Session}

theorem drained_ofHypotheses (config : Config) (hypotheses : List Formula) :
    (ofHypotheses config hypotheses).value.base.Drained := by
  intro id fact hget hlive
  rw [isLive_ofHypotheses hget] at hlive
  cases hlive

/-! ## Where a search has closed -/

structure Settled (v : Valuation) (s : Session) : Prop extends Consistent v s where
  closed : ∀ {m}, s.base.Concludes m → s.base.contains m.formula = true
  drained : s.base.Drained

theorem SaturatesTo.settled {goal : Formula} (h : SaturatesTo goal s t .closed)
    (hs : s.Consistent v) (hdrained : s.base.Drained) : t.Settled v where
  toConsistent := h.searches.consistent hs
  closed := h.closed_under_rules hs.reachable.explored
  drained := h.adds.drained hdrained

namespace Settled

theorem contains_one (hs : s.Settled v) {rule : Rule} {p c : Formula} (hp : p.eval v = true)
    (hheld : s.base.contains p = true) (hc : c ∈ rule.apply p none) :
    s.base.contains c = true := by
  obtain ⟨id, fact, hget, halike⟩ := hs.exists_alike hp hheld
  obtain ⟨c', hc', hcc'⟩ := Rule.exists_mem_apply_one (alike_symm halike) hc
  refine FactBase.contains_of_alike hcc' ?_
  cases hlive : s.base.isLive id with
  | true =>
    have hlists : Lists s.base.live id fact.formula :=
      ⟨fact, FactBase.mem_live.mpr ⟨hget, hlive⟩, rfl⟩
    exact hs.closed (m := ⟨rule, c', [id]⟩) (.one hlists hc')
  | false => exact hs.drained hget hlive hc'

/-- From `A → ¬A` to `¬A`, by way of `¬A ∨ ¬A`. -/
theorem contains_consequent (hs : s.Settled v) {a b : Formula} (himp : (imp a b).eval v = true)
    (hab : a.negate.alike b = true) (hheld : s.base.contains (imp a b) = true) :
    s.base.contains b = true := by
  have hdisj : disj a.negate b ∈ Rule.conditionalDisjunction.apply (imp a b) none :=
    List.mem_singleton.mpr rfl
  have hself : a.negate.holding ∈ Rule.selfReference.apply (disj a.negate b) none :=
    Rule.mem_apply.mpr ⟨rfl, Inference.mem_selfReference.mpr ⟨_, _, rfl, hab, rfl⟩⟩
  have hdisj_true : (disj a.negate b).eval v = true :=
    Inference.eval_of_mem_conditionalDisjunction himp hdisj
  have hlike : b.alike a.negate.holding = true :=
    alike_symm (alike_trans (holding_alike _) hab)
  exact FactBase.contains_of_alike hlike
    (hs.contains_one hdisj_true (hs.contains_one himp hheld hdisj) hself)

/-- A premise that is out of use is trivial, and then the conclusion is held without it. -/
theorem contains_two (hs : s.Settled v) {rule : Rule} {p q c : Formula} (hp : p.eval v = true)
    (hq : q.eval v = true) (hholding : p.holding = p) (hdistinct : p.sameEntry q = false)
    (hdetached : rule.detaches = true → p.isTrivial = false) (hheld : s.base.contains p = true)
    (hheld' : s.base.contains q = true) (hc : c ∈ rule.apply p (some q)) :
    s.base.contains c = true := by
  by_cases htrivial : p.isTrivial = true ∨ q.isTrivial = true
  · rcases Rule.conclusion_of_trivial hholding hc htrivial hdetached with
      h | h | ⟨a, b, rfl | rfl, hab, hcb⟩
    · exact FactBase.contains_of_alike h hheld
    · exact FactBase.contains_of_alike h hheld'
    · exact FactBase.contains_of_alike hcb (hs.contains_consequent hp hab hheld)
    · exact FactBase.contains_of_alike hcb (hs.contains_consequent hq hab hheld')
  · rw [not_or, Bool.not_eq_true, Bool.not_eq_true] at htrivial
    obtain ⟨i, p', hi, hpp'⟩ := hs.exists_live hp hheld htrivial.1
    obtain ⟨j, q', hj, hqq'⟩ := hs.exists_live hq hheld' htrivial.2
    have hp' : Lists s.base.live i p'.formula := ⟨p', hi, rfl⟩
    have hq' : Lists s.base.live j q'.formula := ⟨q', hj, rfl⟩
    have hne : i ≠ j := by
      rintro rfl
      rw [FactBase.lists_live_inj hp' hq'] at hpp'
      rw [sameEntry_of_alike (alike_trans (alike_symm hpp') hqq')] at hdistinct
      cases hdistinct
    obtain ⟨c', hc', hcc'⟩ := Rule.exists_mem_apply_two hholding
      (hs.reachable.grounded.holding hp') (hs.reachable.grounded.holding hq')
      (alike_symm hpp') (alike_symm hqq') hc
    exact FactBase.contains_of_alike hcc'
      (hs.closed (m := ⟨rule, c', [i, j]⟩) (.two hp' hq' hne hc'))

theorem contains_of_derives (hs : s.Settled v) {premises : Formula → Prop}
    (htrue : ∀ g, premises g → g.eval v = true)
    (hheld : ∀ g, premises g → s.base.contains g = true) {f : Formula}
    (h : Derives premises f) : s.base.contains f = true := by
  induction h with
  | premise h => exact (FactBase.contains_holding _ _).trans (hheld _ h)
  | one hp hc ih => exact hs.contains_one (hp.eval htrue) ih hc
  | two hp hq hdistinct hdetached hc ihp ihq =>
    exact hs.contains_two (hp.eval htrue) (hq.eval htrue) hp.holding hdistinct hdetached ihp ihq hc

theorem drained_prune (hs : s.Settled v) : s.prune.value.base.Drained := by
  intro id fact hget _ rule c hc
  rw [prune_base, FactBase.get?_prune] at hget
  have hheld : s.base.contains fact.formula = true :=
    FactBase.contains_iff.mpr ⟨id, fact, hget, sameEntry_refl _⟩
  exact (FactBase.grows_prune s.base).contains (hs.contains_one (hs.eval hget) hheld hc)

end Settled

/-! ## Giving up -/

/-- A search that gives up on a goal has ended within its bounds and without the goal, and it has
given up on the consequent as well. -/
theorem ProvesTo.of_notDerivable {goal : Formula} (h : ProvesTo goal s t .notDerivable) :
    ∃ u ending, SaturatesTo goal s u ending ∧ (∀ limit, ending ≠ .limitExceeded limit) ∧
      u.prune.value.base.find? goal = none ∧
        ∀ a c, goal = imp a c → ProvesTo c (u.prune.value.assume a c).value t .notDerivable := by
  cases h with
  | stuck hsat hending hfind hgoal =>
    refine ⟨_, _, hsat, hending, hfind, ?_⟩
    rintro a c rfl
    cases hgoal
  | assumed hsat hending hfind hrest =>
    refine ⟨_, _, hsat, hending, hfind, ?_⟩
    rintro a c heq
    cases heq
    exact hrest

/-- A goal that was found and is lost by pruning is trivial. -/
theorem SaturatesTo.isTrivial_of_goalFound {goal : Formula} {id : FactId}
    (h : SaturatesTo goal s t (.goalFound id)) (hs : s.Reachable)
    (hfind : t.prune.value.base.find? goal = none) : goal.isTrivial = true := by
  refine (Bool.not_eq_false _).mp fun htrivial => ?_
  have hdistinct := (hs.trans h.searches.reaches).distinct
  rw [prune_base, hdistinct.find?_prune h.find?_of_goalFound htrivial] at hfind
  cases hfind

/-- If a search gives up on a true goal that is held, the goal is trivial. -/
theorem ProvesTo.isTrivial_of_notDerivable {goal : Formula} (h : ProvesTo goal s t .notDerivable)
    (hs : s.Consistent v) (hgoal : goal.eval v = true) (hheld : s.base.contains goal = true) :
    goal.isTrivial = true := by
  obtain ⟨u, _, hsat, _, hfind, _⟩ := h.of_notDerivable
  exact (hsat.searches_prune.consistent hs).isTrivial_of_not_found hgoal
    (hsat.searches_prune.reaches.grows.contains hheld) hfind

/-- A held goal is found, at the latest when all that makes it trivial is taken off. -/
theorem not_notDerivable_of_contains {goal rest : Formula} {assumed : List Assumption}
    (hpeels : Peels goal assumed rest) (hrest : rest.isTrivial = false)
    (hassumed : ∀ a ∈ assumed, a.assumed.eval v = true) :
    ∀ {s t : Session}, s.Consistent v → goal.eval v = true → s.base.contains goal = true →
      ¬ ProvesTo goal s t .notDerivable := by
  induction hpeels with
  | done goal =>
    intro s t hs hgoal hheld h
    rw [h.isTrivial_of_notDerivable hs hgoal hheld] at hrest
    cases hrest
  | @peel a c _ _ _ _ ih =>
    intro s t hs hgoal hheld h
    have hac : a.alike c = true := h.isTrivial_of_notDerivable hs hgoal hheld
    obtain ⟨u, _, hsat, _, _, hnext⟩ := h.of_notDerivable
    have ha : a.eval v = true := hassumed _ List.mem_cons_self
    have hheld := FactBase.contains_of_alike (alike_symm hac)
      (contains_assume u.prune.value a c)
    exact ih hrest (fun b hb => hassumed b (List.mem_cons_of_mem _ hb))
      ((hsat.searches_prune.consistent hs).assume ha c) ((eval_eq_of_alike v hac).symm.trans ha)
      hheld (hnext a c rfl)

/-- The induction is on what is still to be assumed: a premise is held already or will be. -/
theorem not_notDerivable_of_derives {premises : Formula → Prop}
    (htrue : ∀ g, premises g → g.eval v = true) {goal rest f : Formula}
    (hf : Derives premises f) (hlike : f.alike rest = true) {assumed : List Assumption}
    (hpeels : Peels goal assumed rest) (hrest : rest.isTrivial = false)
    (hassumed : ∀ a ∈ assumed, a.assumed.eval v = true) :
    ∀ {s t : Session}, s.Consistent v → s.base.Drained →
      (∀ g, premises g → s.base.contains g = true ∨ ∃ a ∈ assumed, g = a.assumed) →
        ¬ ProvesTo goal s t .notDerivable := by
  induction hpeels with
  | done goal =>
    intro s t hs hdrained hpremises h
    obtain ⟨u, ending, hsat, hending, hfind, _⟩ := h.of_notDerivable
    refine Bool.eq_false_iff.mp hrest ?_
    cases ending with
    | goalFound id => exact hsat.isTrivial_of_goalFound hs.reachable hfind
    | limitExceeded limit => exact absurd rfl (hending limit)
    | closed =>
      have hheld : ∀ g, premises g → u.base.contains g = true := by
        intro g hg
        rcases hpremises g hg with hheld | ⟨_, hnone, _⟩
        · exact hsat.adds.contains hheld
        · cases hnone
      have hin := FactBase.contains_of_alike (alike_symm hlike)
        ((hsat.settled hs hdrained).contains_of_derives htrue hheld hf)
      exact (hsat.searches_prune.consistent hs).isTrivial_of_not_found
        ((eval_eq_of_alike v hlike).symm.trans (hf.eval htrue))
        ((FactBase.grows_prune u.base).contains hin) hfind
  | @peel a c _ fact assumed hpeels ih =>
    intro s t hs hdrained hpremises h
    obtain ⟨u, ending, hsat, hending, hfind, hnext⟩ := h.of_notDerivable
    have hnext := hnext a c rfl
    have ha : a.eval v = true := hassumed _ List.mem_cons_self
    have hassumed : ∀ b ∈ assumed, b.assumed.eval v = true :=
      fun b hb => hassumed b (List.mem_cons_of_mem _ hb)
    have hconsistent := (hsat.searches_prune.consistent hs).assume ha c
    have hheld := contains_assume u.prune.value a c
    cases ending with
    | limitExceeded limit => exact absurd rfl (hending limit)
    | goalFound id =>
      -- the goal was there and is lost, so that assuming one side gives the other
      have hac : a.alike c = true := hsat.isTrivial_of_goalFound hs.reachable hfind
      exact not_notDerivable_of_contains hpeels hrest hassumed hconsistent
        ((eval_eq_of_alike v hac).symm.trans ha)
        (FactBase.contains_of_alike (alike_symm hac) hheld) hnext
    | closed =>
      have hgrows := hsat.searches_prune.reaches.grows
      have hadds : u.prune.value.base.Adds (u.prune.value.assume a c).value.base :=
        FactBase.adds_push _ _
      have hdrained := hadds.drained (hsat.settled hs hdrained).drained_prune
      refine ih hlike hrest hassumed hconsistent hdrained (fun g hg => ?_) hnext
      rcases hpremises g hg with hin | ⟨b, hb, rfl⟩
      · exact Or.inl (hadds.contains (hgrows.contains hin))
      · rcases List.mem_cons.mp hb with rfl | hb
        · exact Or.inl hheld
        · exact Or.inr ⟨b, hb, rfl⟩

/-! ## Two searches -/

/-- What is found at the end is not trivial, since every search ends with a pruning. -/
theorem ProvesTo.isTrivial_of_find? {goal f : Formula} {outcome : Outcome} {id : FactId}
    (h : ProvesTo goal s t outcome) (hfind : t.base.find? f = some id) : f.isTrivial = false := by
  have after_prune : ∀ {u : Session}, u.prune.value.base.find? f = some id →
      f.isTrivial = false := by
    intro u hfind
    obtain ⟨fact, hget, hlive, halike⟩ := FactBase.find?_eq_some hfind
    rw [prune_base, FactBase.get?_prune] at hget
    rw [prune_base, FactBase.isLive_prune, hget, Bool.and_eq_true] at hlive
    refine Bool.eq_false_iff.mpr fun htrivial => ?_
    have htrivial := isTrivial_of_alike (alike_symm halike) htrivial
    simp [htrivial] at hlive
  induction h with
  | found => exact after_prune hfind
  | stopped => exact after_prune hfind
  | stuck => exact after_prune hfind
  | assumed _ _ _ _ ih => exact ih hfind

/-- A proof that detaches no trivial implication derives what is left of the conclusion. -/
theorem exists_derives_of_proved {config : Config} {hypotheses : List Formula}
    {conclusion : Formula} {proof : Proof}
    (h : (solve config hypotheses conclusion).value.2 = .proved proof)
    (havoids : proof.AvoidsTrivial) :
    ∃ rest f, Peels conclusion proof.assumptions rest ∧ rest.isTrivial = false ∧
      Derives (fun g => g ∈ hypotheses ∨ ∃ a ∈ proof.assumptions, g = a.assumed) f ∧
        f.alike rest = true := by
  have hproves := provesTo_prove conclusion (ofHypotheses config hypotheses).value
  have hreachable := (reachable_ofHypotheses config hypotheses).trans hproves.reaches
  have hbacked := hproves.backed (backed_ofHypotheses config hypotheses)
  change ((ofHypotheses config hypotheses).value.prove conclusion).value.2 = _ at h
  rw [h] at hproves
  obtain ⟨assumed, rest, id, hassumptions, hpeels, hfind, rfl⟩ := hproves.exists_peels
  rw [assumptions_ofHypotheses, List.nil_append] at hassumptions
  rw [← hassumptions] at hpeels
  have hcertifies := certifies_proofOf hreachable hbacked hpeels hfind
  obtain ⟨fact, hget, _, halike⟩ := FactBase.find?_eq_some hfind
  have hline := (mem_proofOf hreachable.grounded id).mpr
    ⟨id, fact, mem_listing hreachable.grounded id hget, hget, rfl⟩
  exact ⟨rest, fact.formula, hpeels, hproves.isTrivial_of_find? hfind,
    hcertifies.derives havoids _ hline, halike⟩

/-- If `B` is proved with the hypothesis `A`, the search for `A → B` succeeds or meets a bound. -/
theorem solve_imp_ne_notDerivable (config : Config) {hypotheses : List Formula} {a b : Formula}
    {proof : Proof} (hproved : (solve config (hypotheses ++ [a]) b).value.2 = .proved proof)
    (havoids : proof.AvoidsTrivial)
    (hmodel : ∃ v : Valuation, (∀ h ∈ hypotheses ++ [a], h.eval v = true) ∧
      ∀ assumption ∈ proof.assumptions, assumption.assumed.eval v = true) :
    (solve config hypotheses (.imp a b)).value.2 ≠ .notDerivable := by
  obtain ⟨v, htrue, hassumed⟩ := hmodel
  obtain ⟨rest, f, hpeels, hrest, hderives, halike⟩ := exists_derives_of_proved hproved havoids
  have hpeels : Peels (.imp a b) (⟨a, b, none⟩ :: proof.assumptions) rest := .peel hpeels
  have hproves := provesTo_prove (.imp a b) (ofHypotheses config hypotheses).value
  change ((ofHypotheses config hypotheses).value.prove (.imp a b)).value.2 ≠ _
  intro hnone
  rw [hnone] at hproves
  refine not_notDerivable_of_derives (v := v) ?_ hderives halike hpeels hrest ?_
    (consistent_ofHypotheses config fun h hh => htrue h (List.mem_append_left _ hh))
    (drained_ofHypotheses config hypotheses) ?_ hproves
  · rintro g (hg | ⟨assumption, hmem, rfl⟩)
    · exact htrue g hg
    · exact hassumed assumption hmem
  · rintro assumption hmem
    rcases List.mem_cons.mp hmem with rfl | hmem
    · exact htrue a (List.mem_append_right _ List.mem_cons_self)
    · exact hassumed assumption hmem
  · rintro g (hg | ⟨assumption, hmem, rfl⟩)
    · rcases List.mem_append.mp hg with hg | hg
      · exact Or.inl (contains_ofHypotheses hg)
      · exact Or.inr ⟨_, List.mem_cons_self, List.mem_singleton.mp hg⟩
    · exact Or.inr ⟨assumption, List.mem_cons_of_mem _ hmem, rfl⟩

/-- Between `P → Q` and `Q → P` the search for `P → (R → Q)` prunes four trivial implications before
it assumes `P` and then `R`. -/
theorem solve_imp_ne_notDerivable_equivalents :
    let hypotheses : List Formula := [.imp (.var "P") (.var "Q"), .imp (.var "Q") (.var "P")]
    (solve .standard (hypotheses ++ [.var "P"]) (.imp (.var "R") (.var "Q"))).value.2.isProved =
        true ∧
      (solve .standard hypotheses (.imp (.var "P") (.imp (.var "R") (.var "Q")))).value.2 ≠
        .notDerivable := by
  intro hypotheses
  have hproved : (solve .standard (hypotheses ++ [.var "P"])
      (.imp (.var "R") (.var "Q"))).value.2 = .proved
        ⟨[⟨.var "R", .var "Q", some 24⟩],
          [⟨1, .imp (.var "P") (.var "Q"), .hypothesis⟩,
            ⟨2, .imp (.var "Q") (.var "P"), .hypothesis⟩,
            ⟨3, .atom "P" false (some true), .hypothesis⟩,
            ⟨4, .atom "R" false (some true), .assumption⟩,
            ⟨5, .atom "Q" false (some true), .inference .modusPonens [3, 1]⟩], 5⟩ := by
    decide +kernel
  refine ⟨by rw [hproved]; rfl, solve_imp_ne_notDerivable .standard hproved (by decide) ?_⟩
  exact ⟨fun _ => true, by decide, by decide⟩

/-- Why there are conditions. In the first case `A` contradicts the hypotheses, and in the second
`P ∨ Q` contradicts them and the assumption before it, so that an entry is taken by an atom of the
other sign; in the third and the fourth a trivial implication is needed that was pruned before there
was a use for it. -/
theorem deduction_fails :
    let unlike (hypotheses : List Formula) (a b : Formula) : Prop :=
      (solve .standard (hypotheses ++ [a]) b).value.2.isProved = true ∧
        (solve .standard hypotheses (.imp a b)).value.2 = .notDerivable
    let trivial := Formula.imp (.var "X") (.var "X")
    let either := Formula.disj (.var "P") (.var "Q")
    unlike [.imp (.var "A") (.var "C"), (Formula.var "C").negate] (.var "A") (.var "A") ∧
      unlike [.var "Y", .imp (.var "Y") (.imp either (.var "X"))]
        (.imp either (Formula.var "X").negate)
        (.imp either (.conj (Formula.var "X").negate (.var "Y"))) ∧
      unlike [trivial] (.imp trivial (.var "D")) (.var "D") ∧
      unlike [trivial] (.imp (.var "D") trivial.negate) (Formula.var "D").negate := by
  decide +kernel

end Session

end Turnstile
