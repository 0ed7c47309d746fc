import Turnstile.Proofs.Restatement

/-!
What becomes of the assumptions of a search.

An assumption is turned away where its entry is taken, and then it is held by the fact found in its
place. That search sees only the facts in use. So an assumption can be lost in two ways: by an atom
of the opposite sign, or by a fact like it that has been pruned.

* `deductionSteps`: the sessions right after each assumption of a search. `assumptions_prove`: the
  assumptions that a search records are theirs;
* `FactBase.Distinct.orElse_find?_push`: an assumption is recorded with what is found for it once
  it has been made;
* `FactBase.Distinct.find?_or_contradicts_iff`: something held is found or contradicted unless it
  has been pruned;
* `assumption_kept_iff`: so it is for every assumption. `assumption_lost` shows one that is lost
  without a contradiction.
-/

namespace Turnstile

open Formula

/-- The assumption is held by a fact in use. -/
def Assumption.HeldIn (r : Assumption) (b : FactBase) : Prop :=
  ∃ id fact, r.fact = some id ∧ b.get? id = some fact ∧ b.isLive id = true ∧
    fact.formula.alike r.assumed = true

theorem Assumption.heldIn_iff {r : Assumption} {b : FactBase} (h : r.fact = b.find? r.assumed) :
    r.HeldIn b ↔ ∃ id, b.find? r.assumed = some id := by
  constructor
  · rintro ⟨id, _, hid, _⟩
    exact ⟨id, h.symm.trans hid⟩
  · rintro ⟨id, hfind⟩
    obtain ⟨fact, hget, hlive, halike⟩ := FactBase.find?_eq_some hfind
    exact ⟨id, fact, h.trans hfind, hget, hlive, halike⟩

namespace FactBase

variable {b : FactBase} {f : Formula}

/-- A fact like the formula is stored, but no longer in use. -/
def HasPruned (b : FactBase) (f : Formula) : Prop :=
  ∃ id fact, b.get? id = some fact ∧ b.isLive id = false ∧ fact.formula.alike f = true

/-- A fact just added is what is found for it, so that looking it up would do in any case. -/
theorem Distinct.orElse_find?_push (hb : b.Distinct) (fact : Fact)
    (halike : fact.formula.alike f = true) :
    ((b.push fact).value.2.orElse fun _ => (b.push fact).value.1.find? f) =
      (b.push fact).value.1.find? f := by
  cases hid : (b.push fact).value.2 with
  | none => rfl
  | some id =>
    obtain ⟨hnew, rfl⟩ := contains_of_push_eq_some hid
    exact (hb.find?_push fact hnew halike).symm

theorem Distinct.find?_of_hasPruned (hb : b.Distinct) (h : b.HasPruned f) : b.find? f = none := by
  obtain ⟨id, fact, hget, hdead, halike⟩ := h
  refine Option.eq_none_iff_forall_ne_some.mpr fun id' hfind => ?_
  obtain ⟨fact', hget', hlive, halike'⟩ := find?_eq_some hfind
  have hid : id = id' := hb.eq_of_alike hget hget' halike halike'
  rw [← hid, hdead] at hlive
  cases hlive

theorem Distinct.find?_or_contradicts_iff (hb : b.Distinct) (hheld : b.contains f = true) :
    ((∃ id, b.find? f = some id) ∨ b.Contradicts f) ↔ ¬ b.HasPruned f := by
  constructor
  · rintro (⟨id, hfind⟩ | hcontradicts) hpruned
    · rw [hb.find?_of_hasPruned hpruned] at hfind
      cases hfind
    · obtain ⟨id, fact, hget, _, halike⟩ := hpruned
      exact hb.not_contradicts hget halike hcontradicts
  · intro hspared
    rcases exists_alike_or_contradicts hheld with ⟨id, fact, hget, halike⟩ | hcontradicts
    · refine Or.inl ⟨id, hb.find?_eq_some_iff.mpr ⟨fact, hget, ?_, halike⟩⟩
      exact (Bool.not_eq_false _).mp fun hdead => hspared ⟨id, fact, hget, hdead, halike⟩
    · exact Or.inr hcontradicts

theorem PrunesTrivial.isTrivial_of_hasPruned (hb : b.PrunesTrivial) (h : b.HasPruned f) :
    f.isTrivial = true := by
  obtain ⟨id, fact, hget, hdead, halike⟩ := h
  exact isTrivial_of_alike halike (hb hget hdead)

end FactBase

namespace Session

/-! ## The steps of a search -/

/-- The sessions that a search comes to right after each of its assumptions, in this order. -/
def deductionSteps (s : Session) : Formula → List Session
  | .imp antecedent consequent =>
    match (s.attempt (.imp antecedent consequent)).value with
    | (_, some _) => []
    | (s, none) =>
      let s := (s.assume antecedent consequent).value
      s :: s.deductionSteps consequent
  | _ => []

theorem deductionSteps_imp (s : Session) (a c : Formula) :
    s.deductionSteps (.imp a c) =
      match (s.attempt (.imp a c)).value.2 with
      | some _ => []
      | none =>
        let t := ((s.attempt (.imp a c)).value.1.assume a c).value
        t :: t.deductionSteps c := by
  rw [Formula.imp, deductionSteps.eq_1]
  split <;> simp_all [Formula.imp]

theorem deductionSteps_of_not_imp (s : Session) {goal : Formula} (h : goal.isImp = false) :
    s.deductionSteps goal = [] := by
  cases goal with
  | atom => rfl
  | compound op negated a c =>
    cases op with
    | and | or | iff => rfl
    | implies =>
      cases negated with
      | true => rfl
      | false => simp [Formula.isImp] at h

theorem assumptions_attempt (s : Session) (goal : Formula) :
    (s.attempt goal).value.1.assumptions = s.assumptions := by
  rw [value_attempt]
  exact (saturatesTo_saturate s goal).searches_prune.assumptions_eq

/-- A search records one assumption at each of its steps, and no others. -/
theorem assumptions_prove (goal : Formula) :
    ∀ s : Session, (s.prove goal).value.1.assumptions =
      s.assumptions ++ (s.deductionSteps goal).filterMap (·.assumptions.getLast?) := by
  induction goal using Formula.goal_induction with
  | of_not_imp goal hgoal =>
    intro s
    rw [value_prove_of_not_imp s hgoal, deductionSteps_of_not_imp s hgoal, assumptions_attempt]
    simp
  | imp a c ih =>
    intro s
    rw [value_prove_imp, deductionSteps_imp]
    cases houtcome : (s.attempt (.imp a c)).value.2 with
    | some outcome =>
      rw [assumptions_attempt]
      simp
    | none =>
      dsimp only
      rw [ih, assume_assumptions, assumptions_attempt]
      simp [assume_assumptions]

/-- Every step is an assumption, made in a session that the search has reached. -/
theorem exists_assume_of_mem_deductionSteps {t : Session} (goal : Formula) :
    ∀ {s : Session}, t ∈ s.deductionSteps goal →
      ∃ u a c, s.Reaches u ∧ t = (u.assume a c).value := by
  induction goal using Formula.goal_induction with
  | of_not_imp goal hgoal =>
    intro s ht
    rw [deductionSteps_of_not_imp s hgoal] at ht
    cases ht
  | imp a c ih =>
    intro s ht
    have hattempt := reaches_attempt s (.imp a c)
    rw [deductionSteps_imp] at ht
    cases houtcome : (s.attempt (.imp a c)).value.2 with
    | some outcome =>
      rw [houtcome] at ht
      cases ht
    | none =>
      rw [houtcome] at ht
      rcases List.mem_cons.mp ht with rfl | ht
      · exact ⟨_, a, c, hattempt, rfl⟩
      · obtain ⟨u, a', c', hreaches, rfl⟩ := ih ht
        exact ⟨u, a', c', (hattempt.tail (.assume _ a c)).trans hreaches, rfl⟩

/-! ## What is recorded at a step -/

theorem Reachable.getLast?_assumptions_assume {s : Session} (hs : s.Reachable) (a c : Formula) :
    (s.assume a c).value.assumptions.getLast? =
      some ⟨a, c, (s.assume a c).value.base.find? a⟩ := by
  rw [assume_assumptions, List.getLast?_append, assume_base,
    hs.distinct.orElse_find?_push (.assumption a) (holding_alike a)]
  rfl

/-- At every step of a search that starts from hypotheses, the assumption just recorded is held by a
fact in use or contradicted by a stored atom, unless a fact like it has been pruned. In that case it
is a trivial implication, and is recorded without a fact. -/
theorem assumption_kept_iff (config : Config) (hypotheses : List Formula) (goal : Formula) :
    let s := (ofHypotheses config hypotheses).value
    (s.prove goal).value.1.assumptions =
      (s.deductionSteps goal).filterMap (·.assumptions.getLast?) ∧
    ∀ t ∈ s.deductionSteps goal, ∃ r, t.assumptions.getLast? = some r ∧
      (r.HeldIn t.base ∨ t.base.Contradicts r.assumed ↔ ¬ t.base.HasPruned r.assumed) ∧
      (t.base.HasPruned r.assumed → r.fact = none ∧ r.assumed.isTrivial = true) := by
  intro s
  have hs : s.Reachable := reachable_ofHypotheses config hypotheses
  constructor
  · rw [assumptions_prove, assumptions_ofHypotheses]
    rfl
  · intro t ht
    obtain ⟨u, a, c, hreaches, rfl⟩ := exists_assume_of_mem_deductionSteps goal ht
    have hu : u.Reachable := hs.trans hreaches
    have ht : (u.assume a c).value.Reachable := hu.trans (.single (.assume u a c))
    refine ⟨_, hu.getLast?_assumptions_assume a c, ?_, fun hpruned => ?_⟩
    · rw [Assumption.heldIn_iff rfl]
      exact ht.distinct.find?_or_contradicts_iff (contains_assume u a c)
    · exact ⟨ht.distinct.find?_of_hasPruned hpruned,
        ht.prunesTrivial.isTrivial_of_hasPruned hpruned⟩

/-- Of three assumptions the first was pruned as a hypothesis, the second is contradicted, and the
third is held. -/
theorem assumption_kept_iff_three :
    let s := (ofHypotheses .standard
      [.imp (.var "X") (.var "X"), (Formula.var "Z").negate]).value
    let goal : Formula :=
      .imp (.imp (.var "X") (.var "X")) (.imp (.var "Z") (.imp (.var "W") (.var "Y")))
    (s.deductionSteps goal).map (·.assumptions.getLast?.bind (·.fact)) = [none, none, some 5] ∧
      ∀ t ∈ s.deductionSteps goal, ∃ r, t.assumptions.getLast? = some r ∧
        (r.HeldIn t.base ∨ t.base.Contradicts r.assumed ↔ ¬ t.base.HasPruned r.assumed) ∧
        (t.base.HasPruned r.assumed → r.fact = none ∧ r.assumed.isTrivial = true) :=
  ⟨by decide +kernel, (assumption_kept_iff _ _ _).2⟩

/-- With `X → X` among the hypotheses, assuming it again leaves nothing: no fact in use holds it,
and no atom contradicts it. -/
theorem assumption_lost :
    let s := (ofHypotheses .standard [.imp (.var "X") (.var "X"), .var "Y"]).value
    ∃ t ∈ s.deductionSteps (.imp (.imp (.var "X") (.var "X")) (.var "Y")),
      ∃ r, t.assumptions.getLast? = some r ∧
        ¬ (r.HeldIn t.base ∨ t.base.Contradicts r.assumed) := by
  intro s
  have hlost : (s.deductionSteps (.imp (.imp (.var "X") (.var "X")) (.var "Y"))).any (fun t =>
      t.assumptions.getLast?.any fun r => r.fact.isNone && r.assumed.atomName?.isNone) = true := by
    decide +kernel
  obtain ⟨t, ht, hlast⟩ := List.any_eq_true.mp hlost
  cases hr : t.assumptions.getLast? with
  | none =>
    rw [hr] at hlast
    cases hlast
  | some r =>
    rw [hr, Option.any_some, Bool.and_eq_true, Option.isNone_iff_eq_none,
      Option.isNone_iff_eq_none] at hlast
    refine ⟨t, ht, r, hr, ?_⟩
    rintro (⟨id, fact, hid, _⟩ | ⟨hatom, _⟩)
    · rw [hlast.1] at hid
      cases hid
    · rw [hlast.2] at hatom
      cases hatom

end Session

end Turnstile
