import Turnstile.Proofs.Run

/-!
What the frontier of a session promises.

* `Explored`: unless the store is over its bound, whatever a rule concludes from live facts before
  the frontier is held already. `Reachable.explored`: it is so in every session. A pass that runs
  into the bound loses conclusions, but then the store stays over it for good;
* `SaturatesTo.closed_under_rules`: where a search closes, the store is closed under all rules;
* `closed_exhausted`: so it is after any commands, and nothing in use is like the goal.
-/

namespace Turnstile

/-- What is concluded from facts that were there before was concluded before. -/
theorem FactBase.Grows.concludes {b c : FactBase} (h : b.Grows c) {m : Match}
    (hm : c.Concludes m) (old : ∀ id ∈ m.parents, id < b.size) : b.Concludes m := by
  refine Match.DrawnFrom.mono hm fun id hid f => ?_
  rintro ⟨fact, hlive, heq⟩
  exact ⟨fact, h.mem_live (old id hid) hlive, heq⟩

theorem FactBase.Concludes.lt_size {b : FactBase} {m : Match} (h : b.Concludes m) :
    ∀ id ∈ m.parents, id < b.size := by
  intro id hid
  obtain ⟨_, fact, hlive, _⟩ := Match.DrawnFrom.known h id hid
  exact FactBase.lt_size_of_get? (FactBase.mem_live.mp hlive).1

/-- No live fact is like the goal, and what a rule concludes from a live fact, or from two different
ones in either order, shares the entry of a stored fact, be it in use or not. -/
structure FactBase.Exhausted (b : FactBase) (goal : Formula) : Prop where
  absent : ∀ {id fact}, (id, fact) ∈ b.live → fact.formula.alike goal = false
  one : ∀ rule ∈ Rule.catalog, ∀ i p, (i, p) ∈ b.live → ∀ c ∈ rule.apply p.formula none,
    ∃ id fact, b.get? id = some fact ∧ fact.formula.sameEntry c = true
  two : ∀ rule ∈ Rule.catalog, ∀ i j p q, (i, p) ∈ b.live → (j, q) ∈ b.live → i ≠ j →
    ∀ c ∈ rule.apply p.formula (some q.formula),
      ∃ id fact, b.get? id = some fact ∧ fact.formula.sameEntry c = true

namespace Session

structure Explored (s : Session) : Prop where
  frontier_le : s.frontier ≤ s.base.size
  held : s.base.size ≤ s.config.maxFacts → ∀ {m}, s.base.Concludes m →
    (∀ id ∈ m.parents, id < s.frontier) → s.base.contains m.formula = true

theorem explored_start (config : Config) : (start config).Explored where
  frontier_le := Nat.zero_le _
  held _ m hm _ := by
    have none_lt := hm.lt_size
    cases hm with
    | one => exact absurd (none_lt _ (List.mem_singleton.mpr rfl)) (Nat.not_lt_zero _)
    | two => exact absurd (none_lt _ List.mem_cons_self) (Nat.not_lt_zero _)

/-- As long as the frontier stays, facts may be added and pruned. -/
theorem Explored.of_grows {s t : Session} (hs : s.Explored) (hgrows : s.base.Grows t.base)
    (hfrontier : t.frontier = s.frontier) (hconfig : t.config = s.config) : t.Explored where
  frontier_le := hfrontier ▸ Nat.le_trans hs.frontier_le hgrows.size_le
  held hsize m hm old := by
    rw [hfrontier] at old
    rw [hconfig] at hsize
    have before : s.base.Concludes m :=
      hgrows.concludes hm fun id hid => Nat.lt_of_lt_of_le (old id hid) hs.frontier_le
    exact hgrows.contains (hs.held (Nat.le_trans hgrows.size_le hsize) before old)

theorem lt_frontier_of_not_isFresh {s : Session} {id : FactId} (h : s.isFresh id = false) :
    id < s.frontier := by
  simp only [isFresh, Bool.or_eq_false_iff, decide_eq_false_iff_not] at h
  exact Nat.lt_of_not_le h.2

/-- A conclusion that a pass does not look at is held already. -/
theorem Explored.contains_of_not_fresh {s : Session} (hs : s.Explored)
    (hsize : s.base.size ≤ s.config.maxFacts) {m : Match} (hm : s.base.Concludes m)
    (hfresh : m.parents.any s.isFresh = false) : s.base.contains m.formula = true := by
  refine hs.held hsize hm fun id hid => lt_frontier_of_not_isFresh ?_
  exact Bool.eq_false_iff.mpr fun h =>
    Bool.eq_false_iff.mp hfresh (List.any_eq_true.mpr ⟨id, hid, h⟩)

/-- A pass that stays within the bound leaves nothing to conclude from the facts it started with:
it tried the conclusion, or one before did. -/
theorem Explored.contains_pass {s : Session} (hs : s.Explored)
    (hsize : s.pass.value.1.base.size ≤ s.config.maxFacts) {m : Match} (hm : s.base.Concludes m) :
    s.pass.value.1.base.contains m.formula = true := by
  rw [pass_base] at hsize ⊢
  cases hfresh : m.parents.any s.isFresh with
  | true => exact FactBase.contains_addMatches (mem_found.mpr ⟨hm, hfresh⟩) hsize
  | false =>
    have hgrows := FactBase.grows_addMatches s.config.maxFacts s.base s.found
    have hroom := Nat.le_trans hgrows.size_le hsize
    exact hgrows.contains (hs.contains_of_not_fresh hroom hm hfresh)

theorem Explored.pass {s : Session} (hs : s.Explored) : s.pass.value.1.Explored where
  frontier_le := (adds_pass s).size_le
  held hsize _ hm old := hs.contains_pass hsize ((adds_pass s).concludes hm old)

theorem Step.explored {s t : Session} (h : Step s t) (hs : s.Explored) : t.Explored := by
  cases h with
  | add h => exact hs.of_grows (FactBase.grows_push _ _) rfl rfl
  | search h =>
    cases h with
    | pass => exact hs.pass
    | prune => exact hs.of_grows (FactBase.grows_prune _) rfl rfl
  | assume a g => exact hs.of_grows (FactBase.grows_push _ _) rfl rfl

theorem Reachable.explored {s : Session} (hs : s.Reachable) : s.Explored :=
  hs.invariant explored_start Step.explored

/-- The last pass left the frontier behind all facts. -/
theorem SaturatesTo.closed_under_rules {goal : Formula} {s t : Session}
    (h : SaturatesTo goal s t .closed) (hs : s.Explored) {m : Match} (hm : t.base.Concludes m) :
    t.base.contains m.formula = true := by
  generalize hending : Ending.closed = ending at h
  induction h with
  | found | full | spent => cases hending
  | @closed s _ hsize _ hupdated =>
    have hsame := pass_size_of_not_updated hupdated
    have hroom : s.pass.value.1.base.size ≤ s.pass.value.1.config.maxFacts := by
      rw [hsame, pass_config]
      exact hsize
    refine hs.pass.held hroom hm ?_
    rw [pass_frontier, ← hsame]
    exact hm.lt_size
  | again _ _ _ _ _ ih => exact ih hs.pass hm hending

/-- What a search that closed did not find is not there. -/
theorem SaturatesTo.not_alike_of_closed {goal : Formula} {s t : Session}
    (h : SaturatesTo goal s t .closed) (hs : s.base.Distinct) {id : FactId} {fact : Fact}
    (hlive : (id, fact) ∈ t.base.live) : fact.formula.alike goal = false := by
  generalize hending : Ending.closed = ending at h
  induction h with
  | found | full | spent => cases hending
  | @closed s hfind _ _ hupdated =>
    refine Bool.eq_false_iff.mpr fun halike => ?_
    -- the last pass added nothing, so the fact was there when the goal was looked for
    have hlt : id < s.base.size := by
      rw [← pass_size_of_not_updated hupdated]
      exact FactBase.lt_size_of_get? (FactBase.mem_live.mp hlive).1
    obtain ⟨hget, hlive⟩ := FactBase.mem_live.mp ((adds_pass s).mem_live hlt hlive)
    rw [hs.find?_eq_some_iff.mpr ⟨fact, hget, hlive, halike⟩] at hfind
    cases hfind
  | again _ hsize hpasses _ _ ih =>
    exact ih ((Step.search (.pass _ hsize hpasses)).distinct hs) hlive hending

/-- Where a search closes, whatever the commands before it, there is nothing left to find. -/
theorem closed_exhausted (config : Config) (cs : List Command) (goal : Formula)
    (h : (((start config).performAll cs).value.1.saturate goal).value.2 = .closed) :
    (((start config).performAll cs).value.1.saturate goal).value.1.base.Exhausted goal := by
  have hs := reachable_performAll config cs
  generalize ((start config).performAll cs).value.1 = s at h hs ⊢
  have hsat := saturatesTo_saturate s goal
  rw [h] at hsat
  exact {
    absent := fun hlive => hsat.not_alike_of_closed hs.distinct hlive
    one := fun rule _ i p hp c hc =>
      FactBase.contains_iff.mp (hsat.closed_under_rules (m := ⟨rule, c, [i]⟩) hs.explored
        (.one ⟨p, hp, rfl⟩ hc))
    two := fun rule _ i j p q hp hq hne c hc =>
      FactBase.contains_iff.mp (hsat.closed_under_rules (m := ⟨rule, c, [i, j]⟩) hs.explored
        (.two ⟨p, hp, rfl⟩ ⟨q, hq, rfl⟩ hne hc)) }

/-- The first search stops at its goal before it has closed, `B → A` comes after it, and the four
trivial implications between `A` and `B` are out of use when the last search starts. -/
theorem closed_exhausted_after_stops :
    let cs : List Command :=
      [.add (.imp (.var "A") (.var "B")), .saturate (.disj (Formula.var "A").negate (.var "B")),
        .add (.imp (.var "B") (.var "A")), .prove (.imp (.var "C") (.var "D"))]
    let s := ((start .standard).performAll cs).value.1
    (s.saturate (.var "D")).value.2 = .closed ∧
      (s.saturate (.var "D")).value.1.base.Exhausted (.var "D") := by
  intro cs
  have hclosed : (((start .standard).performAll cs).value.1.saturate (.var "D")).value.2 =
      .closed := by decide +kernel
  exact ⟨hclosed, closed_exhausted .standard cs (.var "D") hclosed⟩

end Session

end Turnstile
