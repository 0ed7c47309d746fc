import Turnstile.Proofs.Assumptions
import Turnstile.Proofs.Seminaive
import Turnstile.Proofs.Termination

/-!
The counts that a session keeps, and its bounds.

* `Accounted`: what the counts say of a session. Every step keeps it (`Step.accounted`), so it holds
  of every session that is reached;
* `KeepsBounds`: how far a saturation may take a store, and what it has to show for when it stops at
  a bound (`Reachable.keepsBounds`);
* `SolvesThrough`: the sessions that come up while a problem is solved, those in the middle of a
  pass among them. `SolvesThrough.size_le`: none of them is over the bound by more than one fact and
  the assumptions so far, unless the hypotheses are;
* `search_accounted`: all this for every run of commands and every problem.
-/

namespace Turnstile

def Fact.isAssumption (fact : Fact) : Bool := fact.origin == .assumption

/-- The sum of the numbers of all rules. -/
def PerRule.total (t : PerRule) : Nat := Rule.catalog.foldr (fun rule n => t.count rule + n) 0

theorem PerRule.total_add (s t : PerRule) : (s.add t).total = s.total + t.total := by
  unfold total
  induction Rule.catalog with
  | nil => rfl
  | cons rule rules ih =>
    rw [List.foldr_cons, List.foldr_cons, List.foldr_cons, ih, count_add]
    omega

/-! ## Facts by their origin -/

namespace FactBase

/-- How many of the stored facts pass a test, those out of use included. -/
def count (b : FactBase) (test : Fact → Bool) : Nat := b.entries.toList.countP fun e => test e.fact

theorem count_append (b : FactBase) (fact : Fact) (atoms : AtomTable) (test : Fact → Bool) :
    (b.append fact atoms).count test = b.count test + if test fact then 1 else 0 := by
  simp only [count, append, Array.toList_push, List.countP_append, List.countP_singleton]

@[simp] theorem size_prune (b : FactBase) : b.prune.value.1.size = b.size := by
  simp [prune, size]

@[simp] theorem count_prune (b : FactBase) (test : Fact → Bool) :
    b.prune.value.1.count test = b.count test := by
  simp only [count, prune, Array.toList_map, List.countP_map]
  rfl

theorem count_addMatches (b : FactBase) (maxFacts : Nat) (matched : List Match)
    {test : Fact → Bool} (htest : ∀ m : Match, test m.toFact = false) :
    (b.addMatches maxFacts matched).value.1.count test = b.count test := by
  refine addMatches_induction (P := fun c => c.count test = b.count test) rfl ?_
  intro c _ hc m _
  cases hheld : c.contains m.toFact.formula with
  | true => rw [value_push_of_contains hheld]; exact hc
  | false => rw [value_push_of_not_contains hheld, count_append, htest m]; exact hc

theorem size_push_le (b : FactBase) (fact : Fact) : (b.push fact).value.1.size ≤ b.size + 1 := by
  cases hheld : b.contains fact.formula with
  | true => rw [value_push_of_contains hheld]; exact Nat.le_succ _
  | false => rw [value_push_of_not_contains hheld, size_append]

/-- One fact over the bound ends the additions. -/
theorem size_addMatches_le_max (maxFacts : Nat) (b : FactBase) (matched : List Match) :
    (b.addMatches maxFacts matched).value.1.size ≤ max b.size (maxFacts + 1) := by
  rw [value_addMatches]
  refine List.foldlRecOn
    (motive := fun acc : FactBase × Nat => acc.1.size ≤ max b.size (maxFacts + 1))
    matched _ (Nat.le_max_left _ _) ?_
  intro acc hacc m _
  unfold addOne
  split
  · exact hacc
  · next hroom =>
    split
    · exact hacc
    · have hpush := size_push_le acc.1 m.toFact
      dsimp only
      omega

/-- Every stored fact is a hypothesis, an assumption or one of the inferred. -/
def Tallies (b : FactBase) (inferred : Nat) : Prop :=
  b.size = b.count Fact.isHypothesis + b.count Fact.isAssumption + inferred

theorem tallies_emptyWith (d : Digest) : (emptyWith d).Tallies 0 := rfl

theorem Tallies.push_given {b : FactBase} {inferred : Nat} (h : b.Tallies inferred) {fact : Fact}
    (hgiven : fact.isGiven = true) : (b.push fact).value.1.Tallies inferred := by
  cases hheld : b.contains fact.formula with
  | true => rw [value_push_of_contains hheld]; exact h
  | false =>
    rw [value_push_of_not_contains hheld]
    unfold Tallies at h ⊢
    rw [size_append, count_append, count_append, h]
    obtain ⟨f, origin⟩ := fact
    cases origin with
    | hypothesis => simp only [Fact.isHypothesis, Fact.isAssumption]; grind
    | assumption => simp only [Fact.isHypothesis, Fact.isAssumption]; grind
    | inference => cases hgiven

theorem Tallies.addMatches {b : FactBase} {inferred : Nat} (h : b.Tallies inferred) (maxFacts : Nat)
    (matched : List Match) :
    (b.addMatches maxFacts matched).value.1.Tallies
      (inferred + (b.addMatches maxFacts matched).value.2) := by
  unfold Tallies at h ⊢
  rw [size_addMatches, count_addMatches b maxFacts matched fun _ => rfl,
    count_addMatches b maxFacts matched fun _ => rfl, h]
  omega

theorem Tallies.prune {b : FactBase} {inferred : Nat} (h : b.Tallies inferred) :
    b.prune.value.1.Tallies inferred := by
  unfold Tallies at h ⊢
  rw [size_prune, count_prune, count_prune, h]

theorem Distinct.not_alike_of_find?_eq_none {b : FactBase} (hb : b.Distinct)
    {goal : Formula} (hfind : b.find? goal = none) {id : FactId} {fact : Fact}
    (hlive : (id, fact) ∈ b.live) : fact.formula.alike goal = false := by
  refine Bool.eq_false_iff.mpr fun halike => ?_
  obtain ⟨hget, hlive⟩ := mem_live.mp hlive
  rw [hb.find?_eq_some_iff.mpr ⟨fact, hget, hlive, halike⟩] at hfind
  cases hfind

end FactBase

namespace Session

/-! ## Counts -/

/-- The counts are those of the facts, the passes and the conclusions found. -/
structure Accounted (s : Session) : Prop where
  facts : s.base.Tallies s.tally.factsAdded
  passes : s.tally.passes ≤ s.config.maxPasses
  updated : s.tally.updated = true ↔ 0 < s.tally.factsAdded
  found : s.tally.factsAdded ≤ s.tally.found.total

theorem total_found_pass (s : Session) : s.pass.value.2.found.total = s.found.length := by
  simp only [PerRule.total, count_found_pass, found, foundOver, List.length_flatMap,
    List.sum_eq_foldr, List.foldr_map]

/-- A pass adds some of what it finds. -/
theorem pass_factsAdded_le (s : Session) :
    s.pass.value.2.factsAdded ≤ s.pass.value.2.found.total := by
  have hsize := size_pass_le s
  rw [size_pass] at hsize
  rw [total_found_pass]
  omega

theorem Step.accounted {s t : Session} (h : Step s t) (hs : s.Accounted) : t.Accounted := by
  cases h with
  | add h => exact ⟨hs.facts.push_given rfl, hs.passes, hs.updated, hs.found⟩
  | assume a g => exact ⟨hs.facts.push_given rfl, hs.passes, hs.updated, hs.found⟩
  | search h =>
    cases h with
    | prune => exact ⟨hs.facts.prune, hs.passes, hs.updated, hs.found⟩
    | pass _ hpasses =>
      have hfound := Nat.add_le_add hs.found (pass_factsAdded_le s)
      refine ⟨?_, hpasses, ?_, ?_⟩
      · rw [pass_base, pass_tally, Tally.add, pass_factsAdded]
        exact hs.facts.addMatches _ _
      · rw [pass_tally, Tally.add, Bool.or_eq_true, hs.updated, pass_updated, decide_eq_true_eq]
        exact Nat.add_pos_iff_pos_or_pos.symm
      · rw [pass_tally, Tally.add, PerRule.total_add]
        exact hfound

theorem accounted_start (config : Config) : (start config).Accounted where
  facts := FactBase.tallies_emptyWith _
  passes := Nat.zero_le _
  updated := by simp [start, Tally.zero]
  found := Nat.zero_le _

theorem Reachable.accounted {s : Session} (hs : s.Reachable) : s.Accounted :=
  hs.invariant accounted_start Step.accounted

/-! ## Bounds -/

/-- How far a saturation from `s` to `t` goes, and where it may stop at a bound. -/
structure KeepsBounds (goal : Formula) (s t : Session) (ending : Ending) : Prop where
  size : t.base.size ≤ max s.base.size (s.config.maxFacts + 1)
  facts : ∀ n, ending = .limitExceeded (.facts n) → n = s.config.maxFacts ∧ n < t.base.size
  passes : ∀ n, ending = .limitExceeded (.passes n) →
    n = s.config.maxPasses ∧ t.tally.passes = n ∧ t.base.size ≤ s.config.maxFacts
  absent : ∀ limit, ending = .limitExceeded limit →
    ∀ ⦃id fact⦄, (id, fact) ∈ t.base.live → fact.formula.alike goal = false

theorem size_pass_le_max (s : Session) :
    s.pass.value.1.base.size ≤ max s.base.size (s.config.maxFacts + 1) := by
  rw [pass_base]
  exact FactBase.size_addMatches_le_max _ _ _

theorem SaturatesTo.size_le {goal : Formula} {s t : Session} {ending : Ending}
    (h : SaturatesTo goal s t ending) :
    t.base.size ≤ max s.base.size (s.config.maxFacts + 1) := by
  induction h with
  | found | full | spent => exact Nat.le_max_left _ _
  | closed => exact size_pass_le_max _
  | @again s t ending _ _ _ _ _ ih =>
    have hpass := size_pass_le_max s
    rw [pass_config] at ih
    omega

/-- A search that stops at a bound has just looked for the goal, and then at the bound. -/
theorem SaturatesTo.of_limitExceeded {goal : Formula} {s t : Session} {limit : Limit}
    (h : SaturatesTo goal s t (.limitExceeded limit)) :
    t.base.find? goal = none ∧
      (limit = .facts s.config.maxFacts ∧ s.config.maxFacts < t.base.size ∨
        limit = .passes s.config.maxPasses ∧ s.config.maxPasses ≤ t.tally.passes ∧
          t.base.size ≤ s.config.maxFacts) := by
  generalize hending : Ending.limitExceeded limit = ending at h
  induction h with
  | found | closed => cases hending
  | full hfind hsize =>
    cases hending
    exact ⟨hfind, Or.inl ⟨rfl, hsize⟩⟩
  | spent hfind hsize hpasses =>
    cases hending
    exact ⟨hfind, Or.inr ⟨rfl, hpasses, hsize⟩⟩
  | again _ _ _ _ _ ih => exact ih hending

theorem Reachable.keepsBounds {goal : Formula} {s t : Session} {ending : Ending}
    (hs : s.Reachable) (h : SaturatesTo goal s t ending) : KeepsBounds goal s t ending where
  size := h.size_le
  facts n hn := by
    subst hn
    obtain ⟨_, ⟨hlimit, hsize⟩ | ⟨hlimit, _⟩⟩ := h.of_limitExceeded
    · cases hlimit
      exact ⟨rfl, hsize⟩
    · cases hlimit
  passes n hn := by
    subst hn
    obtain ⟨_, ⟨hlimit, _⟩ | ⟨hlimit, hpasses, hsize⟩⟩ := h.of_limitExceeded
    · cases hlimit
    · cases hlimit
      -- the count of passes never goes over its bound
      have hle := (hs.trans h.searches.reaches).accounted.passes
      rw [h.searches.reaches.config_eq] at hle
      exact ⟨rfl, Nat.le_antisymm hle hpasses, hsize⟩
  absent limit hlimit id fact hlive := by
    subst hlimit
    have hdistinct := (hs.trans h.searches.reaches).distinct
    exact hdistinct.not_alike_of_find?_eq_none h.of_limitExceeded.1 hlive

/-! ## On the way -/

/-- The sessions that come up while saturating for a goal. -/
inductive SaturatesThrough (goal : Formula) : Session → Session → Prop
  | start (s : Session) : SaturatesThrough goal s s
  /-- In a pass that has dealt with some of what it found. -/
  | within {s : Session} {matched rest : List Match} (hfind : s.base.find? goal = none)
      (hsize : s.base.size ≤ s.config.maxFacts)
      (hpasses : s.tally.passes < s.config.maxPasses) (hfound : s.found = matched ++ rest) :
      SaturatesThrough goal s
        { s with base := (s.base.addMatches s.config.maxFacts matched).value.1 }
  | closed {s : Session} (hfind : s.base.find? goal = none)
      (hsize : s.base.size ≤ s.config.maxFacts)
      (hpasses : s.tally.passes < s.config.maxPasses)
      (hupdated : s.pass.value.2.updated = false) : SaturatesThrough goal s s.pass.value.1
  | again {s t : Session} (hfind : s.base.find? goal = none)
      (hsize : s.base.size ≤ s.config.maxFacts)
      (hpasses : s.tally.passes < s.config.maxPasses)
      (hupdated : s.pass.value.2.updated = true)
      (hrest : SaturatesThrough goal s.pass.value.1 t) : SaturatesThrough goal s t

/-- The sessions that come up while proving a goal. -/
inductive ProvesThrough : Formula → Session → Session → Prop
  | saturating {goal : Formula} {s t : Session} (h : SaturatesThrough goal s t) :
      ProvesThrough goal s t
  | pruned (goal : Formula) (s : Session) : ProvesThrough goal s (s.attempt goal).value.1
  | assumed {a c : Formula} {s t : Session} (hopen : (s.attempt (.imp a c)).value.2 = none)
      (hrest : ProvesThrough c ((s.attempt (.imp a c)).value.1.assume a c).value t) :
      ProvesThrough (.imp a c) s t

/-- The sessions that come up while a problem is solved, from the empty one on. -/
inductive SolvesThrough (config : Config) (hypotheses : List Formula) (conclusion : Formula) :
    Session → Prop
  | adding {before after : List Formula} (h : hypotheses = before ++ after) :
      SolvesThrough config hypotheses conclusion (ofHypotheses config before).value
  | proving {t : Session}
      (h : ProvesThrough conclusion (ofHypotheses config hypotheses).value t) :
      SolvesThrough config hypotheses conclusion t

theorem SaturatesThrough.bounded {goal : Formula} {s t : Session} (h : SaturatesThrough goal s t) :
    t.assumptions = s.assumptions ∧ t.base.size ≤ max s.base.size (s.config.maxFacts + 1) := by
  induction h with
  | start => exact ⟨rfl, Nat.le_max_left _ _⟩
  | within => exact ⟨rfl, FactBase.size_addMatches_le_max _ _ _⟩
  | closed => exact ⟨rfl, size_pass_le_max _⟩
  | @again s t _ _ _ _ _ ih =>
    have hpass := size_pass_le_max s
    rw [pass_config] at ih
    exact ⟨ih.1, by omega⟩

theorem size_attempt_le (s : Session) (goal : Formula) :
    (s.attempt goal).value.1.base.size ≤ max s.base.size (s.config.maxFacts + 1) := by
  rw [value_attempt]
  dsimp only
  rw [prune_base, FactBase.size_prune]
  exact (saturatesTo_saturate s goal).size_le

/-- Each assumption brings at most one fact more, and what is found in between none. -/
theorem ProvesThrough.size_le {goal : Formula} {s t : Session} (h : ProvesThrough goal s t)
    {bound : Nat} (hroom : s.config.maxFacts + 1 ≤ bound)
    (hsize : s.base.size ≤ bound + s.assumptions.length) :
    t.base.size ≤ bound + t.assumptions.length := by
  induction h with
  | saturating h =>
    obtain ⟨hassumptions, hle⟩ := h.bounded
    rw [hassumptions]
    omega
  | pruned goal s =>
    have hle := size_attempt_le s goal
    rw [assumptions_attempt]
    omega
  | @assumed a c s t _ _ ih =>
    have hle := size_attempt_le s (.imp a c)
    have hpush := FactBase.size_push_le (s.attempt (.imp a c)).value.1.base (.assumption a)
    refine ih ?_ ?_
    · have hconfig := config_attempt s (.imp a c)
      rw [← hconfig] at hroom
      exact hroom
    · rw [assume_base, assume_assumptions, assumptions_attempt, List.length_append,
        List.length_singleton]
      omega

theorem size_ofHypotheses_le (config : Config) (hypotheses : List Formula) :
    (ofHypotheses config hypotheses).value.base.size ≤ hypotheses.length := by
  rw [value_ofHypotheses]
  have from_any : ∀ s : Session,
      (hypotheses.foldl (fun s h => (s.addHypothesis h).value.1) s).base.size ≤
        s.base.size + hypotheses.length := by
    induction hypotheses with
    | nil => exact fun s => Nat.le_refl _
    | cons h hypotheses ih =>
      intro s
      have hrest := ih (s.addHypothesis h).value.1
      have hpush := FactBase.size_push_le s.base (.hypothesis h)
      rw [addHypothesis_base] at hrest
      rw [List.foldl_cons, List.length_cons]
      omega
  exact (from_any (start config)).trans (Nat.zero_add _).le

theorem SolvesThrough.size_le {config : Config} {hypotheses : List Formula} {conclusion : Formula}
    {t : Session} (h : SolvesThrough config hypotheses conclusion t) :
    t.base.size ≤ max hypotheses.length (config.maxFacts + 1) + t.assumptions.length := by
  cases h with
  | @adding before after h =>
    have hsize := size_ofHypotheses_le config before
    have hlength := congrArg List.length h
    rw [List.length_append] at hlength
    omega
  | proving h =>
    have hsize := size_ofHypotheses_le config hypotheses
    refine h.size_le ?_ ?_
    · rw [config_ofHypotheses]
      exact Nat.le_max_right _ _
    · omega

theorem provesThrough_prove (goal : Formula) :
    ∀ s : Session, ProvesThrough goal s (s.prove goal).value.1 := by
  induction goal using Formula.goal_induction with
  | of_not_imp goal hgoal =>
    intro s
    rw [value_prove_of_not_imp s hgoal]
    exact .pruned goal s
  | imp a c ih =>
    intro s
    rw [value_prove_imp]
    cases hattempt : (s.attempt (.imp a c)).value.2 with
    | some outcome => exact .pruned _ s
    | none => exact .assumed hattempt (ih _)

theorem solvesThrough_solve (config : Config) (hypotheses : List Formula) (conclusion : Formula) :
    SolvesThrough config hypotheses conclusion (solve config hypotheses conclusion).value.1 :=
  .proving (provesThrough_prove conclusion _)

/-! ## All of it -/

/-- In every session the counts are right, and every saturation keeps to the bounds. While a problem
is solved, the store may go over its bound by one fact and by the assumptions, or by the assumptions
alone where the hypotheses are over it. -/
theorem search_accounted (config : Config) :
    (∀ cs : List Command,
      let s := ((start config).performAll cs).value.1
      s.config = config ∧ s.Accounted ∧
        ∀ goal, KeepsBounds goal s (s.saturate goal).value.1 (s.saturate goal).value.2) ∧
      ∀ hypotheses conclusion,
        SolvesThrough config hypotheses conclusion (solve config hypotheses conclusion).value.1 ∧
          ∀ t, SolvesThrough config hypotheses conclusion t →
            t.base.size ≤ max hypotheses.length (config.maxFacts + 1) + t.assumptions.length := by
  refine ⟨fun cs => ?_, fun hypotheses conclusion => ?_⟩
  · have hs := reachable_performAll config cs
    exact ⟨(reaches_performAll cs (start config)).config_eq, hs.accounted, fun goal =>
      hs.keepsBounds (saturatesTo_saturate _ goal)⟩
  · exact ⟨solvesThrough_solve config hypotheses conclusion, fun t h => h.size_le⟩

/-- A search that is over its bound at once, one that has made all its passes, and a problem where
the goal is found among too many hypotheses, pruned, and its antecedent assumed all the same. -/
theorem search_accounted_over_bounds :
    let config : Config := ⟨2, 1, true⟩
    let s := ((start config).performAll
      [.add (.var "A"), .add (.imp (.var "A") (.var "B"))]).value.1
    let full := (s.saturate (.var "C")).value
    let spent := (((start config).performAll
      [.add (.var "A"), .saturate (.var "B")]).value.1.saturate (.var "C")).value
    let solved := (solve config [.imp (.var "A") (.var "A"), .var "B", .var "C", .var "D"]
      (.imp (.var "A") (.var "A"))).value.1
    (full.2 = .limitExceeded (.facts 2) ∧ full.1.base.size = 3 ∧ 2 < full.1.base.size) ∧
      (spent.2 = .limitExceeded (.passes 1) ∧ spent.1.tally.passes = 1) ∧
      solved.base.size = 5 ∧ solved.assumptions.length = 1 ∧
        solved.base.size ≤ max 4 (2 + 1) + solved.assumptions.length := by
  have hfull : (((start ⟨2, 1, true⟩).performAll
      [.add (.var "A"), .add (.imp (.var "A") (.var "B"))]).value.1.saturate (.var "C")).value.2 =
        .limitExceeded (.facts 2) := by decide +kernel
  have hspent : (((start ⟨2, 1, true⟩).performAll
      [.add (.var "A"), .saturate (.var "B")]).value.1.saturate (.var "C")).value.2 =
        .limitExceeded (.passes 1) := by decide +kernel
  refine ⟨⟨hfull, by decide +kernel, ?_⟩, ⟨hspent, ?_⟩, by decide +kernel, by decide +kernel, ?_⟩
  · exact (((search_accounted ⟨2, 1, true⟩).1 _).2.2 _).facts 2 hfull |>.2
  · exact ((((search_accounted ⟨2, 1, true⟩).1 _).2.2 _).passes 1 hspent).2.1
  · exact ((search_accounted ⟨2, 1, true⟩).2 _ _).2 _ ((search_accounted ⟨2, 1, true⟩).2 _ _).1

end Session

end Turnstile
