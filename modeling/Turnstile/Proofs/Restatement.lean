import Turnstile.Proofs.Deduction

/-!
Conclusions that are among the hypotheses.

A search for a stored hypothesis finds it before the first pass. What it has found it then looks up
once more, after the trivial implications have been pruned, and of these it has to go on with the
consequent. So a hypothesis can be lost only if it is trivial.

* `Formula.laterGoals`, `Formula.lastGoal`: the goals that follow a trivial implication, and the one
  where this ends;
* `FactBase.Contradicts`: an atom of the opposite sign is stored, so that the formula is turned
  away;
* `ProvesTo.isProved_iff_of_contains`: a search for something held fails only at a bound or where
  the last goal is contradicted;
* `ProvesTo.isProved_of_find?`: it succeeds, whatever the bounds, if the goals after the first one
  are new;
* `solve_accepted`: both for a hypothesis that was accepted. `not_solve_accepted` shows that a
  trivial one may fail in either way.
-/

namespace Turnstile

/-! ## Goals after a trivial implication -/

namespace Formula

/-- The goals that a search comes to once it has pruned the formula: the consequent of a trivial
implication, and those after it if that is trivial as well. -/
def laterGoals : Formula → List Formula
  | .imp a c => if a.alike c then c :: c.laterGoals else []
  | _ => []

/-- The goal that is left in the end. -/
def lastGoal (f : Formula) : Formula := f.laterGoals.getLastD f

theorem laterGoals_imp {a c : Formula} (h : a.alike c = true) :
    (imp a c).laterGoals = c :: c.laterGoals := if_pos h

theorem laterGoals_of_not_imp {f : Formula} (h : f.isImp = false) : f.laterGoals = [] := by
  unfold laterGoals
  split
  · cases h
  · rfl

theorem laterGoals_of_not_trivial {f : Formula} (h : f.isTrivial = false) : f.laterGoals = [] := by
  unfold laterGoals
  split
  · exact if_neg (Bool.eq_false_iff.mp h)
  · rfl

theorem lastGoal_imp {a c : Formula} (h : a.alike c = true) :
    (imp a c).lastGoal = c.lastGoal := by
  rw [lastGoal, laterGoals_imp h, List.getLastD_cons]
  rfl

theorem lastGoal_of_not_trivial {f : Formula} (h : f.isTrivial = false) : f.lastGoal = f := by
  rw [lastGoal, laterGoals_of_not_trivial h]
  rfl

theorem not_alike_negate_lastGoal {f : Formula} (h : f.lastGoal.atomName?.isSome = true) :
    f.alike f.lastGoal.negate = false := by
  cases f with
  | atom => exact not_alike_negate _
  | compound op negated l r =>
    generalize (compound op negated l r).lastGoal = last at h
    cases last with
    | atom => rfl
    | compound => cases h

theorem depth_lt_of_mem_laterGoals {f g : Formula} (h : g ∈ f.laterGoals) : g.depth < f.depth := by
  induction f using goal_induction with
  | of_not_imp f hf =>
    rw [laterGoals_of_not_imp hf] at h
    cases h
  | imp a c ih =>
    have hdepth : c.depth < (imp a c).depth := by
      simp only [depth]
      omega
    unfold laterGoals at h
    split at h
    · rcases List.mem_cons.mp h with rfl | h
      · exact hdepth
      · exact Nat.lt_trans (ih h) hdepth
    · cases h

end Formula

open Formula

namespace FactBase

/-- The formula is an atom, and one of the opposite sign is stored. -/
def Contradicts (b : FactBase) (f : Formula) : Prop :=
  f.atomName?.isSome = true ∧
    ∃ id fact, b.get? id = some fact ∧ fact.formula.alike f.negate = true

variable {b c : FactBase} {f : Formula}

theorem Grows.contradicts (h : b.Grows c) (hf : b.Contradicts f) : c.Contradicts f := by
  obtain ⟨hatom, id, fact, hget, halike⟩ := hf
  exact ⟨hatom, id, fact, h.kept hget, halike⟩

/-- What is held is stored as it stands, or contradicted. -/
theorem exists_alike_or_contradicts (hheld : b.contains f = true) :
    (∃ id fact, b.get? id = some fact ∧ fact.formula.alike f = true) ∨ b.Contradicts f := by
  obtain ⟨id, fact, hget, hsame⟩ := contains_iff.mp hheld
  cases f with
  | compound => exact Or.inl ⟨id, fact, hget, (sameEntry_iff_alike rfl).mp hsame⟩
  | atom name negated truth =>
    obtain ⟨negated', truth', hfact⟩ := sameEntry_atom_iff.mp hsame
    by_cases hsign : negated' = negated
    · subst hsign
      exact Or.inl ⟨id, fact, hget, by rw [hfact]; exact alike_atom_iff.mpr ⟨truth, rfl⟩⟩
    · have hopposite : negated' = !negated := by
        cases negated <;> cases negated' <;> simp at hsign ⊢
      refine Or.inr ⟨rfl, id, fact, hget, ?_⟩
      rw [hfact, hopposite]
      exact alike_atom_iff.mpr ⟨truth, rfl⟩

/-- But not both. -/
theorem Distinct.not_contradicts (hb : b.Distinct) {id : FactId} {fact : Fact}
    (hget : b.get? id = some fact) (halike : fact.formula.alike f = true) : ¬ b.Contradicts f := by
  rintro ⟨hatom, id', fact', hget', halike'⟩
  cases f with
  | compound => cases hatom
  | atom name negated truth =>
    obtain ⟨truth₁, hfact⟩ := alike_atom_iff.mp (alike_symm halike)
    obtain ⟨truth₂, hfact'⟩ := alike_atom_iff.mp (alike_symm halike')
    have hid : id = id' := hb hget hget' (by rw [hfact, hfact']; simp [sameEntry])
    subst hid
    rw [hget] at hget'
    cases hget'
    rw [hfact] at hfact'
    simp at hfact'

/-- A fact just added is found under the last number. -/
theorem Distinct.find?_push (hb : b.Distinct) (fact : Fact)
    (hnew : b.contains fact.formula = false) (halike : fact.formula.alike f = true) :
    (b.push fact).value.1.find? f = some b.size := by
  refine (hb.push fact).find?_eq_some_iff.mpr ⟨fact, ?_, ?_, halike⟩
  · rw [value_push_of_not_contains hnew, get?_append, if_pos rfl]
  · rw [value_push_of_not_contains hnew, isLive_append, if_pos rfl]

end FactBase

namespace Session

variable {s t : Session} {goal : Formula} {outcome : Outcome}

/-! ## A goal that is held -/

theorem Reachable.find?_of_contains (hs : s.Reachable) {f : Formula}
    (hheld : s.base.contains f = true) (htrivial : f.isTrivial = false) :
    (∃ id, s.base.find? f = some id) ∨ s.base.Contradicts f := by
  rcases FactBase.exists_alike_or_contradicts hheld with ⟨id, fact, hget, halike⟩ | hcontradicts
  · have hfact : fact.formula.isTrivial = false := Bool.eq_false_iff.mpr fun h =>
      Bool.eq_false_iff.mp htrivial (isTrivial_of_alike halike h)
    have hlive := hs.isLive_of_not_trivial hget hfact
    exact Or.inl ⟨id, hs.distinct.find?_eq_some_iff.mpr ⟨fact, hget, hlive, halike⟩⟩
  · exact Or.inr hcontradicts

/-- Goal after goal, the entry stays taken: by the fact that was pruned, and then by what was
assumed for it. -/
theorem ProvesTo.isProved_iff_of_contains (h : ProvesTo goal s t outcome) (hs : s.Reachable)
    (hheld : s.base.contains goal = true) (hlast : goal.lastGoal.isTrivial = false) :
    outcome.isProved = true ↔
      (∀ limit, outcome ≠ .limitExceeded limit) ∧ ¬ t.base.Contradicts goal.lastGoal := by
  induction h with
  | @found goal s t ending id hsat hfind =>
    have hgoal : goal.isTrivial = false := (ProvesTo.found hsat hfind).isTrivial_of_find? hfind
    obtain ⟨fact, hget, _, halike⟩ := FactBase.find?_eq_some hfind
    have hdistinct := (hs.trans hsat.searches_prune.reaches).distinct
    rw [lastGoal_of_not_trivial hgoal]
    exact ⟨fun _ => ⟨fun _ => nofun, hdistinct.not_contradicts hget halike⟩, fun _ => rfl⟩
  | @stopped goal s t limit hsat hfind =>
    exact ⟨nofun, fun hopen => absurd rfl (hopen.1 limit)⟩
  | @stuck goal s t ending hsat hending hfind hgoal =>
    have hlastGoal : goal.lastGoal = goal := by rw [lastGoal, laterGoals_of_not_imp hgoal]; rfl
    rw [hlastGoal] at hlast ⊢
    have hheld := hsat.searches_prune.reaches.grows.contains hheld
    rcases (hs.trans hsat.searches_prune.reaches).find?_of_contains hheld hlast with
      ⟨id, hfound⟩ | hcontradicts
    · rw [hfound] at hfind
      cases hfind
    · exact ⟨nofun, fun hopen => absurd hcontradicts hopen.2⟩
  | @assumed a c s t u ending outcome hsat hending hfind hrest ih =>
    have hreaches := hs.trans hsat.searches_prune.reaches
    have hac : a.alike c = true := by
      refine (Bool.not_eq_false _).mp fun hac => ?_
      have hheld := hsat.searches_prune.reaches.grows.contains hheld
      rcases hreaches.find?_of_contains hheld hac with ⟨id, hfound⟩ | ⟨hatom, _⟩
      · rw [hfound] at hfind
        cases hfind
      · cases hatom
    have hheld := FactBase.contains_of_alike (alike_symm hac) (contains_assume t.prune.value a c)
    rw [lastGoal_imp hac] at hlast ⊢
    exact ih (hreaches.trans (.single (.assume _ a c))) hheld hlast

/-! ## A goal that is found at once -/

/-- Before the goal after a trivial one is sought, nothing is added but its assumption. -/
theorem get?_prune_assume {a c : Formula} {id : FactId} {fact : Fact}
    (hget : (s.prune.value.assume a c).value.base.get? id = some fact) :
    s.base.get? id = some fact ∨ fact = .assumption a := by
  rcases FactBase.get?_push hget with hold | ⟨_, rfl, _⟩
  · rw [prune_base, FactBase.get?_prune] at hold
    exact Or.inl hold
  · exact Or.inr rfl

theorem contradicts_prune_assume {a c : Formula} (hac : a.alike c = true)
    (h : (s.prune.value.assume a c).value.base.Contradicts c.lastGoal) :
    s.base.Contradicts c.lastGoal := by
  obtain ⟨hatom, id, fact, hget, halike⟩ := h
  rcases get?_prune_assume hget with hold | rfl
  · exact ⟨hatom, id, fact, hold, halike⟩
  · have hlike := alike_trans (alike_symm hac) (alike_trans (alike_symm (holding_alike a)) halike)
    rw [not_alike_negate_lastGoal hatom] at hlike
    cases hlike

/-- The assumption is like the next goal, and the goals after that are smaller. -/
theorem contains_prune_assume {a c g : Formula} (hac : a.alike c = true) (hg : g ∈ c.laterGoals)
    (htrivial : g.isTrivial = true) (hnew : s.base.contains g = false) :
    (s.prune.value.assume a c).value.base.contains g = false := by
  refine Bool.eq_false_iff.mpr fun hheld => ?_
  obtain ⟨id, fact, hget, hsame⟩ := FactBase.contains_iff.mp hheld
  rcases get?_prune_assume hget with hold | rfl
  · rw [FactBase.contains_iff.mpr ⟨id, fact, hold, hsame⟩] at hnew
    cases hnew
  · have hname : g.atomName? = none := by
      cases g with
      | atom => cases htrivial
      | compound => rfl
    have hlike := (sameEntry_iff_alike hname).mp hsame
    have hcg := alike_trans (alike_symm hac) (alike_trans (alike_symm (holding_alike a)) hlike)
    have hdepth := depth_lt_of_mem_laterGoals hg
    rw [depth_eq_of_alike hcg] at hdepth
    exact absurd hdepth (Nat.lt_irrefl _)

/-- The next goal is found at once if it is new, or neither trivial nor contradicted. -/
theorem exists_find?_prune_assume {a c : Formula} (hs : s.Reachable) (hac : a.alike c = true)
    (hnew : c.isTrivial = true → s.base.contains c = false)
    (hfree : ¬ s.base.Contradicts c.lastGoal) :
    ∃ id, (s.prune.value.assume a c).value.base.find? c = some id := by
  have hprune : s.prune.value.Reachable := hs.trans (.single (.search (.prune s)))
  cases htrivial : c.isTrivial with
  | true =>
    have hentry : s.prune.value.base.contains a.holding = false := by
      rw [FactBase.contains_holding, prune_base, FactBase.contains_prune]
      refine Bool.eq_false_iff.mpr fun ha => Bool.eq_false_iff.mp (hnew htrivial) ?_
      exact FactBase.contains_of_alike (alike_symm hac) ha
    exact ⟨_, hprune.distinct.find?_push (.assumption a) hentry
      (alike_trans (holding_alike a) hac)⟩
  | false =>
    have hheld := FactBase.contains_of_alike (alike_symm hac) (contains_assume s.prune.value a c)
    have hreachable := hprune.trans (.single (.assume s.prune.value a c))
    rcases hreachable.find?_of_contains hheld htrivial with hfound | hcontradicts
    · exact hfound
    · rw [← lastGoal_of_not_trivial htrivial] at hcontradicts
      exact absurd (contradicts_prune_assume hac hcontradicts) hfree

/-- Then no goal needs a pass, and no bound is looked at. -/
theorem ProvesTo.isProved_of_find? (h : ProvesTo goal s t outcome) (hs : s.Reachable)
    (hfind : ∃ id, s.base.find? goal = some id) (hlast : goal.lastGoal.isTrivial = false)
    (hnew : ∀ g ∈ goal.laterGoals, g.isTrivial = true → s.base.contains g = false)
    (hfree : ¬ s.base.Contradicts goal.lastGoal) : outcome.isProved = true := by
  obtain ⟨id, hfound⟩ := hfind
  induction h generalizing id with
  | found => rfl
  | stopped hsat => cases ((SaturatesTo.found hfound).unique hsat).2
  | @stuck goal s t ending hsat hending hlost hgoal =>
    obtain ⟨rfl, rfl⟩ := (SaturatesTo.found hfound).unique hsat
    rw [lastGoal, laterGoals_of_not_imp hgoal] at hlast
    exact absurd (hsat.isTrivial_of_goalFound hs hlost) (Bool.eq_false_iff.mp hlast)
  | @assumed a c s t u ending outcome hsat hending hlost hrest ih =>
    obtain ⟨rfl, rfl⟩ := (SaturatesTo.found hfound).unique hsat
    have hac : a.alike c = true := hsat.isTrivial_of_goalFound hs hlost
    rw [laterGoals_imp hac] at hnew
    rw [lastGoal_imp hac] at hlast hfree
    obtain ⟨id', hfound'⟩ := exists_find?_prune_assume hs hac (hnew c List.mem_cons_self) hfree
    refine ih ((hs.trans hsat.searches_prune.reaches).trans (.single (.assume _ a c))) hlast ?_ ?_
      id' hfound'
    · intro g hg htrivial
      exact contains_prune_assume hac hg htrivial (hnew g (List.mem_cons_of_mem c hg) htrivial)
    · exact fun hcontradicts => hfree (contradicts_prune_assume hac hcontradicts)

/-! ## Hypotheses -/

/-- What is accepted stays where it was put. -/
theorem find?_ofHypotheses {config : Config} {before : List Formula} {h : Formula} {id : FactId}
    (after : List Formula)
    (haccepted : ((ofHypotheses config before).value.addHypothesis h).value.2 = some id) :
    (ofHypotheses config (before ++ h :: after)).value.base.find? h = some id := by
  obtain ⟨hnew, rfl⟩ := FactBase.contains_of_push_eq_some haccepted
  have hstored := (reachable_ofHypotheses config before).distinct.find?_push (.hypothesis h) hnew
    (holding_alike h)
  obtain ⟨fact, hget, _, halike⟩ := FactBase.find?_eq_some hstored
  have hrest : (ofHypotheses config (before ++ h :: after)).value =
      after.foldl (fun s h => (s.addHypothesis h).value.1)
        ((ofHypotheses config before).value.addHypothesis h).value.1 := by
    rw [value_ofHypotheses, value_ofHypotheses, List.foldl_append, List.foldl_cons]
  have hgrows : ((ofHypotheses config before).value.base.push (.hypothesis h)).value.1.Grows
      (ofHypotheses config (before ++ h :: after)).value.base := by
    rw [hrest]
    exact List.foldlRecOn (motive := fun t : Session => FactBase.Grows _ t.base) after _
      (FactBase.Grows.refl _) fun t ht h' _ => ht.trans (FactBase.grows_push t.base _)
  have hget := hgrows.kept hget
  exact (reachable_ofHypotheses config _).distinct.find?_eq_some_iff.mpr
    ⟨fact, hget, isLive_ofHypotheses hget, halike⟩

/-- A hypothesis that was accepted is proved as a conclusion, whatever the bounds, unless it is a
trivial implication. A trivial one is proved just if no bound is met and its last goal is not
contradicted in the end. If the trivial goals on the way there are new, no bound is met, and what
counts is whether a hypothesis contradicts the last goal. -/
theorem solve_accepted {config : Config} {before : List Formula} {h : Formula} {id : FactId}
    (after : List Formula)
    (haccepted : ((ofHypotheses config before).value.addHypothesis h).value.2 = some id) :
    let hypotheses := before ++ h :: after
    let stored := (ofHypotheses config hypotheses).value.base
    let ended := (solve config hypotheses h).value
    (h.isTrivial = false → ended.2.isProved = true) ∧
      (h.lastGoal.isTrivial = false →
        (ended.2.isProved = true ↔
          (∀ limit, ended.2 ≠ .limitExceeded limit) ∧ ¬ ended.1.base.Contradicts h.lastGoal) ∧
        ((∀ g ∈ h.laterGoals, g.isTrivial = true → stored.contains g = false) →
          (ended.2.isProved = true ↔ ¬ stored.Contradicts h.lastGoal))) := by
  intro hypotheses stored ended
  have hproves : ProvesTo h (ofHypotheses config hypotheses).value ended.1 ended.2 :=
    provesTo_prove h (ofHypotheses config hypotheses).value
  have hreachable := reachable_ofHypotheses config hypotheses
  have hfind := find?_ofHypotheses after haccepted
  have hheld : stored.contains h = true := contains_ofHypotheses (by simp [hypotheses])
  refine ⟨fun htrivial => ?_, fun hlast => ⟨?_, fun hnew => ⟨fun hproved => ?_, fun hfree => ?_⟩⟩⟩
  · have hlastGoal := lastGoal_of_not_trivial htrivial
    obtain ⟨fact, hget, _, halike⟩ := FactBase.find?_eq_some hfind
    refine hproves.isProved_of_find? hreachable ⟨id, hfind⟩ (hlastGoal.symm ▸ htrivial) ?_ ?_
    · rw [laterGoals_of_not_trivial htrivial]
      exact nofun
    · rw [hlastGoal]
      exact hreachable.distinct.not_contradicts hget halike
  · exact hproves.isProved_iff_of_contains hreachable hheld hlast
  · have hopen := (hproves.isProved_iff_of_contains hreachable hheld hlast).mp hproved
    exact fun hcontradicts => hopen.2 (hproves.reaches.grows.contradicts hcontradicts)
  · exact hproves.isProved_of_find? hreachable ⟨id, hfind⟩ hlast hnew hfree

/-- There is room for one fact, so that no pass is made, and both conclusions are found all the
same. The trivial one is pruned, and so is its consequent, but no fact contradicts the atom that is
left of them, and it is found once it is assumed. -/
theorem solve_accepted_doubled :
    let doubled := Formula.imp (.imp (.var "X") (.var "X")) (.imp (.var "X") (.var "X"))
    let either := Formula.disj (.var "P") (.var "Q")
    let opposite := (Formula.var "Y").negate
    let config : Config := ⟨1, 1, true⟩
    (((ofHypotheses config [opposite]).value.addHypothesis doubled).value.2 = some 1 ∧
        doubled.isTrivial = true ∧
        (solve config ([opposite] ++ [doubled, either]) doubled).value.2.isProved = true) ∧
      (((ofHypotheses config [opposite, doubled]).value.addHypothesis either).value.2 = some 2 ∧
        either.isTrivial = false ∧
        (solve config ([opposite, doubled] ++ [either]) either).value.2.isProved = true) := by
  intro doubled either opposite config
  have hdoubled : ((ofHypotheses config [opposite]).value.addHypothesis doubled).value.2 =
      some 1 := by decide
  have heither : ((ofHypotheses config [opposite, doubled]).value.addHypothesis either).value.2 =
      some 2 := by decide
  refine ⟨⟨hdoubled, rfl, ?_⟩, heither, rfl, (solve_accepted [] heither).1 rfl⟩
  refine (((solve_accepted [either] hdoubled).2 rfl).2 (by decide)).mpr ?_
  rintro ⟨_, id, fact, hget, halike⟩
  obtain ⟨f, hf, rfl⟩ := get?_ofHypotheses hget
  have hunlike : ∀ f ∈ [opposite] ++ [doubled, either],
      f.holding.alike doubled.lastGoal.negate = false := by decide
  exact Bool.false_ne_true ((hunlike f hf).symm.trans halike)

/-- A trivial hypothesis may be lost. In the first case the antecedent contradicts another
hypothesis, and is not assumed; in the second the goal after the first one has been pruned with it,
so that a pass is made for it and meets a bound. -/
theorem not_solve_accepted :
    let trivial := Formula.imp (.var "X") (.var "X")
    let doubled := Formula.imp trivial trivial
    let opposite := (Formula.var "X").negate
    let small : Config := ⟨1, 128, true⟩
    (((ofHypotheses .standard [opposite]).value.addHypothesis trivial).value.2 = some 1 ∧
        (solve .standard [opposite, trivial] trivial).value.2 = .notDerivable) ∧
      (((ofHypotheses small [trivial]).value.addHypothesis doubled).value.2 = some 1 ∧
        (solve small [trivial, doubled] doubled).value.2 = .limitExceeded (.facts 1)) := by
  decide +kernel

end Session

end Turnstile
