import Turnstile.Report
import Turnstile.Proofs.Listing
import Turnstile.Proofs.Simulation

/-!
A search that is allowed more does not find less. Two searches that differ in their bounds do the
same, pass by pass, until the one with the lower bounds is stopped, or has a pass cut short. Such a
pass is its last, and then it has found the goal or is over its bound.

* `FactBase.Begins`: one store continues another with inferred facts. What is found in the first is
  found in the second under the same number, and has the same proof (`Begins.find?_eq_some`,
  `proofOf_eq_of_begins`);
* `Widens`: two sessions that differ in their bounds only. `Widens.pass`: a pass keeps them so, or
  it is cut short in the first;
* `SaturatesTo.widen`: the second search ends as the first one does, unless that was stopped;
* `solve_widen`: so proofs stay as they are when the bounds are raised.
-/

namespace Turnstile

/-- The goals that a search for the formula comes to, as long as it finds none of them. -/
def Formula.spine : Formula → List Formula
  | .imp a c => .imp a c :: c.spine
  | goal => [goal]

theorem Formula.mem_spine_self (goal : Formula) : goal ∈ goal.spine := by
  induction goal using goal_induction with
  | imp a c => exact List.mem_cons_self
  | of_not_imp goal hgoal =>
    unfold spine
    split
    · cases hgoal
    · exact List.mem_singleton_self _

/-- The bound that ended a search, if one did. -/
def Ending.limit? : Ending → Option Limit
  | .limitExceeded limit => some limit
  | _ => none

/-- The second bounds are no lower, and passes look at the same premises. -/
structure Config.Within (config config' : Config) : Prop where
  seminaive : config'.seminaive = config.seminaive
  maxFacts : config.maxFacts ≤ config'.maxFacts
  maxPasses : config.maxPasses ≤ config'.maxPasses

/-! ## Stores -/

namespace FactBase

/-- `c` holds what `b` holds and, behind it, facts that were inferred. -/
def Begins (b c : FactBase) : Prop :=
  ∃ more : List Entry, c.entries.toList = b.entries.toList ++ more ∧
    ∀ e ∈ more, e.fact.isGiven = false

namespace Begins

variable {b c d : FactBase}

theorem refl (b : FactBase) : b.Begins b := ⟨[], (List.append_nil _).symm, by simp⟩

theorem trans (hbc : b.Begins c) (hcd : c.Begins d) : b.Begins d := by
  obtain ⟨more, hc, hmore⟩ := hbc
  obtain ⟨more', hd, hmore'⟩ := hcd
  refine ⟨more ++ more', by rw [hd, hc, List.append_assoc], fun e he => ?_⟩
  rcases List.mem_append.mp he with he | he
  · exact hmore e he
  · exact hmore' e he

theorem getElem?_eq (h : b.Begins c) {id : FactId} (hid : id < b.size) :
    c.entries[id]? = b.entries[id]? := by
  obtain ⟨more, hc, _⟩ := h
  rw [← Array.getElem?_toList, hc, List.getElem?_append_left hid, Array.getElem?_toList]

theorem get?_eq (h : b.Begins c) {id : FactId} (hid : id < b.size) : c.get? id = b.get? id := by
  rw [get?, get?, h.getElem?_eq hid]

theorem isLive_eq (h : b.Begins c) {id : FactId} (hid : id < b.size) :
    c.isLive id = b.isLive id := by
  rw [isLive, isLive, h.getElem?_eq hid]

theorem size_le (h : b.Begins c) : b.size ≤ c.size := by
  obtain ⟨more, hc, _⟩ := h
  have hlength := congrArg List.length hc
  rw [List.length_append, Array.length_toList, Array.length_toList] at hlength
  rw [size, size, hlength]
  exact Nat.le_add_right _ _

theorem find?_eq_some (h : b.Begins c) (hc : c.Distinct) {f : Formula} {id : FactId}
    (hfind : b.find? f = some id) : c.find? f = some id := by
  obtain ⟨fact, hget, hlive, halike⟩ := FactBase.find?_eq_some hfind
  have hid := lt_size_of_get? hget
  exact hc.find?_eq_some_iff.mpr
    ⟨fact, (h.get?_eq hid).trans hget, (h.isLive_eq hid).trans hlive, halike⟩

theorem prune (h : b.Begins c) : b.prune.value.1.Begins c.prune.value.1 := by
  obtain ⟨more, hc, hmore⟩ := h
  refine ⟨more.map Entry.prune, ?_, ?_⟩
  · simp only [FactBase.prune, Array.toList_map, hc, List.map_append]
  · intro e he
    obtain ⟨e', he', rfl⟩ := List.mem_map.mp he
    exact hmore e' he'

theorem hypotheses_eq (h : b.Begins c) :
    (c.live.filter fun (_, fact) => fact.isHypothesis) =
      b.live.filter fun (_, fact) => fact.isHypothesis := by
  obtain ⟨more, hc, hmore⟩ := h
  rw [live, hc, List.zipIdx_append, List.filterMap_append, List.filter_append]
  refine (congrArg (_ ++ ·) (List.filter_eq_nil_iff.mpr ?_)).trans (List.append_nil _)
  rintro ⟨id, fact⟩ hmem
  obtain ⟨⟨e, id'⟩, he, hfact⟩ := List.mem_filterMap.mp hmem
  have hinferred := hmore e (List.fst_mem_of_mem_zipIdx he)
  dsimp only at hfact
  split at hfact
  · cases hfact
    intro hhypothesis
    rw [Fact.isGiven, beq_iff_eq.mp hhypothesis] at hinferred
    cases hinferred
  · cases hfact

end Begins

theorem begins_push_inference (b : FactBase) (m : Match) :
    b.Begins (b.push m.toFact).value.1 := by
  cases h : b.contains m.toFact.formula with
  | true => rw [value_push_of_contains h]; exact .refl b
  | false =>
    rw [value_push_of_not_contains h]
    refine ⟨[⟨m.toFact, true⟩], Array.toList_push, fun e he => ?_⟩
    rw [List.mem_singleton.mp he]
    rfl

theorem begins_addOne (maxFacts : Nat) (acc : FactBase × Nat) (m : Match) :
    acc.1.Begins (addOne maxFacts acc m).1 := by
  rcases addOne_cases maxFacts acc m with h | ⟨_, h⟩
  · rw [h]; exact .refl acc.1
  · rw [h]; exact begins_push_inference acc.1 m

theorem begins_addMatches (maxFacts : Nat) (b : FactBase) (matched : List Match) :
    b.Begins (b.addMatches maxFacts matched).value.1 :=
  addMatches_induction (P := b.Begins) (.refl b) fun c _ hc m _ =>
    hc.trans (begins_push_inference c m)

/-- With a higher bound the same is added, unless the lower one cut it short. -/
theorem addMatches_widen {maxFacts maxFacts' : Nat} (hle : maxFacts ≤ maxFacts') (b : FactBase)
    (matched : List Match) :
    (b.addMatches maxFacts' matched).value = (b.addMatches maxFacts matched).value ∨
      maxFacts < (b.addMatches maxFacts matched).value.1.size ∧
        (b.addMatches maxFacts matched).value.1.Begins
          (b.addMatches maxFacts' matched).value.1 := by
  rw [value_addMatches, value_addMatches]
  have from_any : ∀ acc acc' : FactBase × Nat,
      acc' = acc ∨ maxFacts < acc.1.size ∧ acc.1.Begins acc'.1 →
        matched.foldl (addOne maxFacts') acc' = matched.foldl (addOne maxFacts) acc ∨
          maxFacts < (matched.foldl (addOne maxFacts) acc).1.size ∧
            (matched.foldl (addOne maxFacts) acc).1.Begins
              (matched.foldl (addOne maxFacts') acc').1 := by
    induction matched with
    | nil => exact fun _ _ h => h
    | cons m matched ih =>
      intro acc acc' h
      rw [List.foldl_cons, List.foldl_cons]
      refine ih _ _ ?_
      by_cases hfull : maxFacts < acc.1.size
      · -- nothing more goes into the first store
        have hbegins : acc.1.Begins acc'.1 := by
          rcases h with rfl | ⟨_, h⟩
          · exact .refl _
          · exact h
        have hkept : addOne maxFacts acc m = acc := if_pos hfull
        rw [hkept]
        exact Or.inr ⟨hfull, hbegins.trans (begins_addOne maxFacts' acc' m)⟩
      · rcases h with rfl | ⟨h, _⟩
        · have hfull' : ¬ acc'.1.size > maxFacts' := by omega
          rw [addOne, addOne, if_neg hfull, if_neg hfull']
          exact Or.inl rfl
        · exact absurd h hfull
  exact from_any (b, 0) (b, 0) (Or.inl rfl)

/-- A listing goes from facts to their parents, which have smaller numbers. So it needs no larger a
bound than the number it starts from, and nothing of what comes behind. -/
theorem Grounded.list_eq {b c : FactBase} (hb : b.Grounded) (h : b.Begins c) (bound : Nat) :
    ∀ {bound' : Nat} {id : FactId}, id < bound → id < bound' → id < b.size →
      ∀ listed, c.list bound' listed id = b.list bound listed id := by
  induction bound with
  | zero => exact fun hid => absurd hid (Nat.not_lt_zero _)
  | succ bound ih =>
    intro bound' id hid hid' hsize listed
    obtain ⟨bound', rfl⟩ := Nat.exists_eq_succ_of_ne_zero (Nat.ne_zero_of_lt hid')
    obtain ⟨fact, hget⟩ := exists_get?_of_lt hsize
    rw [list, list, h.get?_eq hsize, hget]
    dsimp only
    rw [List.foldl_ext _ _ _ fun listed parent hparent => ?_]
    obtain ⟨hlt, p, hp⟩ := hb.parent_lt hget parent hparent
    exact ih (Nat.lt_of_lt_of_le hlt (Nat.le_of_lt_succ hid))
      (Nat.lt_of_lt_of_le hlt (Nat.le_of_lt_succ hid')) (lt_size_of_get? hp) listed

end FactBase

namespace Session

/-! ## Proofs -/

/-- An assumption is held by a stored fact, if it is held at all. -/
theorem Reachable.lt_size_of_assumption {s : Session} (hs : s.Reachable) :
    ∀ a ∈ s.assumptions, ∀ id, a.fact = some id → id < s.base.size := by
  refine hs.invariant
    (P := fun s => ∀ a ∈ s.assumptions, ∀ id, a.fact = some id → id < s.base.size)
    (fun _ _ ha => absurd ha List.not_mem_nil) ?_
  intro s t hstep hs a ha id hid
  cases hstep with
  | add h => exact Nat.lt_of_lt_of_le (hs a ha id hid) (Step.add s h).grows.size_le
  | search h =>
    rw [Searches.assumptions_eq (.single h)] at ha
    exact Nat.lt_of_lt_of_le (hs a ha id hid) h.grows.size_le
  | assume f g =>
    rw [assume_assumptions] at ha
    rcases List.mem_append.mp ha with ha | ha
    · exact Nat.lt_of_lt_of_le (hs a ha id hid) (Step.assume s f g).grows.size_le
    · rw [List.mem_singleton.mp ha] at hid
      rw [assume_base]
      cases hheld : s.base.contains (Fact.assumption f).formula with
      | true =>
        rw [FactBase.value_push_of_contains hheld] at hid ⊢
        obtain ⟨fact, hget, _⟩ := FactBase.find?_eq_some hid
        exact FactBase.lt_size_of_get? hget
      | false =>
        rw [FactBase.value_push_of_not_contains hheld] at hid ⊢
        cases hid
        rw [FactBase.size_append]
        exact Nat.lt_succ_self _

variable {s t : Session}

theorem listing_eq_of_begins (hs : s.Reachable) (hbegins : s.base.Begins t.base)
    (hassumptions : t.assumptions = s.assumptions) {goal : FactId} (hgoal : goal < s.base.size) :
    t.listing goal = s.listing goal := by
  unfold listing
  rw [hbegins.hypotheses_eq, hassumptions]
  refine List.foldl_ext _ _ _ fun listed id hid => ?_
  have hid : id < s.base.size := by
    rcases List.mem_append.mp hid with hid | hid
    · rcases List.mem_append.mp hid with hid | hid
      · obtain ⟨⟨id, fact⟩, hlive, rfl⟩ := List.mem_map.mp hid
        exact FactBase.lt_size_of_get? (FactBase.mem_live.mp (List.mem_of_mem_filter hlive)).1
      · obtain ⟨a, ha, hfact⟩ := List.mem_filterMap.mp hid
        exact hs.lt_size_of_assumption a ha id hfact
    · rwa [List.mem_singleton.mp hid]
  exact hs.grounded.list_eq hbegins _ hid (Nat.lt_of_lt_of_le hid hbegins.size_le) hid listed

theorem proofOf_eq_of_begins (hs : s.Reachable) (hbegins : s.base.Begins t.base)
    (hassumptions : t.assumptions = s.assumptions) {goal : FactId} (hgoal : goal < s.base.size) :
    t.proofOf goal = s.proofOf goal := by
  have hlisting := listing_eq_of_begins hs hbegins hassumptions hgoal
  have hlines : ∀ id ∈ s.listing goal,
      t.base.toLine (s.listing goal) id = s.base.toLine (s.listing goal) id := by
    intro id hid
    obtain ⟨fact, hget⟩ := (hs.grounded.ordered_foldl_list _).exists_get? id hid
    rw [FactBase.toLine, FactBase.toLine, hbegins.get?_eq (FactBase.lt_size_of_get? hget)]
  simp only [proofOf, hlisting, hassumptions, List.filterMap_congr hlines]

/-! ## Sessions -/

/-- The sessions differ in their bounds only, and the second is allowed more. -/
structure Widens (s t : Session) : Prop where
  config : s.config.Within t.config
  base : t.base = s.base
  frontier : t.frontier = s.frontier
  assumptions : t.assumptions = s.assumptions
  passes : t.tally.passes = s.tally.passes

namespace Widens

theorem found_eq (h : s.Widens t) : t.found = s.found := by
  have hfresh : t.isFresh = s.isFresh := by
    funext id
    rw [isFresh, isFresh, h.config.seminaive, h.frontier]
  rw [found, found, foundOver, foundOver, hfresh, h.base]

/-- A pass is the same for both, unless it takes the first over its bound. -/
theorem pass (h : s.Widens t) :
    s.pass.value.1.Widens t.pass.value.1 ∧
        t.pass.value.2.updated = s.pass.value.2.updated ∨
      s.config.maxFacts < s.pass.value.1.base.size ∧
        s.pass.value.1.base.Begins t.pass.value.1.base := by
  rw [pass_updated, pass_updated, pass_factsAdded, pass_factsAdded, pass_base, h.found_eq, h.base]
  rcases FactBase.addMatches_widen h.config.maxFacts s.base s.found with heq | hcut
  · refine Or.inl ⟨⟨h.config, ?_, ?_, h.assumptions, ?_⟩, by rw [heq]⟩
    · rw [pass_base, pass_base, h.found_eq, h.base, heq]
    · rw [pass_frontier, pass_frontier, h.base]
    · simp only [pass_tally, Tally.add, pass_passes, h.passes]
  · rw [pass_base, h.found_eq, h.base]
    exact Or.inr hcut

theorem prune (h : s.Widens t) : s.prune.value.Widens t.prune.value :=
  ⟨h.config, by rw [prune_base, prune_base, h.base], h.frontier, h.assumptions, h.passes⟩

theorem assume (h : s.Widens t) (a g : Formula) :
    (s.assume a g).value.Widens (t.assume a g).value where
  config := h.config
  base := by rw [assume_base, assume_base, h.base]
  frontier := h.frontier
  assumptions := by rw [assume_assumptions, assume_assumptions, h.base, h.assumptions]
  passes := h.passes

end Widens

theorem widens_ofHypotheses {config config' : Config} (h : config.Within config')
    (hypotheses : List Formula) :
    (ofHypotheses config hypotheses).value.Widens (ofHypotheses config' hypotheses).value := by
  rw [value_ofHypotheses, value_ofHypotheses]
  have from_any : ∀ {s t : Session}, s.Widens t →
      (hypotheses.foldl (fun s h => (s.addHypothesis h).value.1) s).Widens
        (hypotheses.foldl (fun s h => (s.addHypothesis h).value.1) t) := by
    induction hypotheses with
    | nil => exact fun h => h
    | cons f hypotheses ih =>
      intro s t h
      refine ih ⟨h.config, ?_, h.frontier, h.assumptions, h.passes⟩
      rw [addHypothesis_base, addHypothesis_base, h.base]
  exact from_any ⟨h, rfl, rfl, rfl, rfl⟩

/-! ## Searches -/

theorem SaturatesTo.begins {goal : Formula} {s t : Session} {ending : Ending}
    (h : SaturatesTo goal s t ending) : s.base.Begins t.base := by
  have hpass : ∀ s : Session, s.base.Begins s.pass.value.1.base := by
    intro s
    rw [pass_base]
    exact FactBase.begins_addMatches _ _ _
  induction h with
  | found | full | spent => exact .refl _
  | closed => exact hpass _
  | again _ _ _ _ _ ih => exact (hpass _).trans ih

/-- A search that is over its bound looks for the goal and ends. -/
theorem SaturatesTo.of_full {goal : Formula} {s t : Session} {ending : Ending}
    (h : SaturatesTo goal s t ending) (hfull : s.config.maxFacts < s.base.size) :
    t = s ∧ ((∃ id, s.base.find? goal = some id ∧ ending = .goalFound id) ∨
      ending = .limitExceeded (.facts s.config.maxFacts)) := by
  cases h with
  | found hfind => exact ⟨rfl, Or.inl ⟨_, hfind, rfl⟩⟩
  | full => exact ⟨rfl, Or.inr rfl⟩
  | spent _ hsize | closed _ hsize | again _ hsize => exact absurd hsize (Nat.not_le_of_lt hfull)

/-- Where the first search makes a pass, the second makes one too. -/
theorem Widens.goesOn {goal : Formula} (h : s.Widens t) (hs : s.GoesOn goal) : t.GoesOn goal where
  find? := by rw [h.base, hs.find?]
  facts := by
    rw [h.base]
    exact Nat.le_trans hs.facts h.config.maxFacts
  passes := by
    rw [h.passes]
    exact Nat.lt_of_lt_of_le hs.passes h.config.maxPasses

/-- A pass that takes the first search over its bound is its last, and if it found the goal, then
so did the pass of the second. -/
theorem Widens.of_cut {goal : Formula} {s' t' : Session} {ending ending' : Ending}
    (h : s.Widens t) (hs : s.base.Distinct) (hgoes : s.GoesOn goal)
    (hcut : s.config.maxFacts < s.pass.value.1.base.size)
    (hbegins : s.pass.value.1.base.Begins t.pass.value.1.base)
    (hsat : SaturatesTo goal s s' ending) (hsat' : SaturatesTo goal t t' ending') :
    s'.base.Begins t'.base ∧ ending ≠ .closed ∧
      (ending.limit? = none → ending' = ending ∧ t' = t.pass.value.1) := by
  have hfacts := hgoes.facts
  -- both passes added something, so that the searches went on
  have hrest : SaturatesTo goal s.pass.value.1 s' ending := by
    rcases hsat.of_goesOn hgoes with ⟨hupdated, _⟩ | ⟨_, hrest⟩
    · rw [pass_size_of_not_updated hupdated] at hcut
      omega
    · exact hrest
  have hrest' : SaturatesTo goal t.pass.value.1 t' ending' := by
    rcases hsat'.of_goesOn (h.goesOn hgoes) with ⟨hupdated, _⟩ | ⟨_, hrest'⟩
    · have hle := hbegins.size_le
      rw [pass_size_of_not_updated hupdated, h.base] at hle
      omega
    · exact hrest'
  obtain ⟨rfl, ⟨id, hfound, rfl⟩ | rfl⟩ := hrest.of_full hcut
  · have hdistinct : t.pass.value.1.base.Distinct := by
      rw [pass_base, h.base]
      exact hs.addMatches _ _
    obtain ⟨rfl, rfl⟩ := (SaturatesTo.found (hbegins.find?_eq_some hdistinct hfound)).unique hrest'
    exact ⟨hbegins, nofun, fun _ => ⟨rfl, rfl⟩⟩
  · exact ⟨hbegins.trans hrest'.begins, nofun, nofun⟩

/-- A search that makes no pass and is not stopped has found its goal, and so has the other. -/
theorem Widens.of_not_goesOn {goal : Formula} {s' t' : Session} {ending ending' : Ending}
    (h : s.Widens t) (hstays : ¬ s.GoesOn goal) (hsat : SaturatesTo goal s s' ending)
    (hsat' : SaturatesTo goal t t' ending') :
    s'.base.Begins t'.base ∧ ending ≠ .closed ∧ (ending.limit? = none → ending' = ending) := by
  have hbegins := hsat'.begins
  rw [h.base] at hbegins
  cases hsat with
  | found hfind =>
    rw [← h.base] at hfind
    obtain ⟨_, rfl⟩ := (SaturatesTo.found hfind).unique hsat'
    exact ⟨hbegins, nofun, fun _ => rfl⟩
  | full | spent => exact ⟨hbegins, nofun, nofun⟩
  | closed hfind hsize hpasses => exact absurd ⟨hfind, hsize, hpasses⟩ hstays
  | again hfind hsize hpasses => exact absurd ⟨hfind, hsize, hpasses⟩ hstays

/-- Up to its last pass the first search does as the second. -/
theorem SaturatesTo.widen {goal : Formula} {s s' : Session} {ending : Ending}
    (h : SaturatesTo goal s s' ending) {t t' : Session} {ending' : Ending}
    (h' : SaturatesTo goal t t' ending') (hw : s.Widens t) (hs : s.base.Distinct) :
    s'.base.Begins t'.base ∧ (ending.limit? = none → ending' = ending) ∧
      (ending = .closed → s'.Widens t') := by
  refine SaturatesTo.in_step (R := fun s t => s.Widens t ∧ s.base.Distinct)
    (Q := fun s' ending t' ending' => s'.base.Begins t'.base ∧
      (ending.limit? = none → ending' = ending) ∧ (ending = .closed → s'.Widens t'))
    ?_ ?_ h h' ⟨hw, hs⟩
  · rintro s t ⟨hw, hs⟩
    by_cases hgoes : s.GoesOn goal
    · rcases hw.pass with ⟨hpass, hupdated⟩ | ⟨hcut, hbegins⟩
      · have hdistinct : s.pass.value.1.base.Distinct := by
          rw [pass_base]
          exact hs.addMatches _ _
        exact Or.inl ⟨hgoes, hw.goesOn hgoes, ⟨hpass, hdistinct⟩, hupdated⟩
      · refine Or.inr fun hsat hsat' => ?_
        obtain ⟨hbegins, hopen, hended⟩ := hw.of_cut hs hgoes hcut hbegins hsat hsat'
        exact ⟨hbegins, fun hlimit => (hended hlimit).1, fun hclosed => absurd hclosed hopen⟩
    · refine Or.inr fun hsat hsat' => ?_
      obtain ⟨hbegins, hopen, hended⟩ := hw.of_not_goesOn hgoes hsat hsat'
      exact ⟨hbegins, hended, fun hclosed => absurd hclosed hopen⟩
  · rintro s t ⟨hw, _⟩
    exact ⟨hw.base ▸ .refl _, fun _ => rfl, fun _ => hw⟩

/-- An attempt that no bound ended comes to the same with higher bounds. -/
theorem Widens.attempt (h : s.Widens t) (hs : s.Reachable) {goal : Formula}
    (hgoal : goal.isTrivial = false)
    (hopen : ∀ limit, (s.attempt goal).value.2 ≠ some (.limitExceeded limit)) :
    (t.attempt goal).value.2 = (s.attempt goal).value.2 ∧
      ((s.attempt goal).value.2 = none →
        (s.attempt goal).value.1.Widens (t.attempt goal).value.1) := by
  have hsat := saturatesTo_saturate s goal
  have hsat' := saturatesTo_saturate t goal
  obtain ⟨hbegins, hending, hwidens⟩ := hsat.widen hsat' h hs.distinct
  rw [value_attempt] at hopen ⊢
  rw [value_attempt]
  dsimp only at hopen ⊢
  cases hfind : (s.saturate goal).value.1.prune.value.base.find? goal with
  | some id =>
    have hdistinct : (t.saturate goal).value.1.prune.value.base.Distinct :=
      hsat'.searches_prune.reaches.keeps (P := fun s => s.base.Distinct) Step.distinct
        (h.base ▸ hs.distinct)
    have hassumptions := hsat'.searches_prune.assumptions_eq.trans
      (h.assumptions.trans hsat.searches_prune.assumptions_eq.symm)
    have hpruned : (s.saturate goal).value.1.prune.value.base.Begins
        (t.saturate goal).value.1.prune.value.base := hbegins.prune
    obtain ⟨fact, hget, _⟩ := FactBase.find?_eq_some hfind
    rw [hpruned.find?_eq_some hdistinct hfind]
    dsimp only
    rw [proofOf_eq_of_begins (hs.trans hsat.searches_prune.reaches) hpruned hassumptions
      (FactBase.lt_size_of_get? hget)]
    exact ⟨rfl, nofun⟩
  | none =>
    rw [hfind] at hopen
    cases hended : (s.saturate goal).value.2 with
    | limitExceeded limit =>
      rw [hended] at hopen
      exact absurd rfl (hopen limit)
    | goalFound id =>
      rw [hended] at hsat
      have hkept := (hs.trans hsat.searches.reaches).distinct.find?_prune
        hsat.find?_of_goalFound hgoal
      rw [prune_base, hkept] at hfind
      cases hfind
    | closed =>
      have hw := (hwidens hended).prune
      rw [hending (by rw [hended]; rfl), hw.base, hfind, hended]
      exact ⟨rfl, fun _ => hw⟩

theorem Widens.prove {goal : Formula} (h : s.Widens t) (hs : s.Reachable)
    (hspine : ∀ g ∈ goal.spine, g.isTrivial = false)
    (hopen : ∀ limit, (s.prove goal).value.2 ≠ .limitExceeded limit) :
    (t.prove goal).value.2 = (s.prove goal).value.2 := by
  refine prove_in_step .identity (P := fun goal => ∀ g ∈ goal.spine, g.isTrivial = false)
    (R := fun s t => s.Widens t ∧ s.Reachable)
    (Q := fun x y => (∀ limit, x.2 ≠ .limitExceeded limit) → y.2 = x.2)
    ?_ ?_ (fun _ _ => rfl) goal hspine ⟨h, hs⟩ hopen
  · rintro goal s t hspine ⟨hw, hs⟩
    rw [Translation.identity_map]
    by_cases hlimit : ∃ limit, (s.attempt goal).value.2 = some (.limitExceeded limit)
    · obtain ⟨limit, hlimit⟩ := hlimit
      rw [value_prove_of_attempt hlimit]
      exact Or.inr fun hopen => absurd rfl (hopen limit)
    · obtain ⟨hsame, hwidens⟩ := hw.attempt hs (hspine goal goal.mem_spine_self)
        (not_exists.mp hlimit)
      cases houtcome : (s.attempt goal).value.2 with
      | none =>
        have hreached := hs.trans (reaches_attempt s goal)
        exact Or.inl ⟨rfl, hsame.trans houtcome, hwidens houtcome, hreached⟩
      | some outcome =>
        rw [value_prove_of_attempt houtcome, value_prove_of_attempt (hsame.trans houtcome)]
        exact Or.inr fun _ => rfl
  · rintro a c s t hspine ⟨hw, hs⟩
    exact ⟨fun g hg => hspine g (List.mem_cons_of_mem _ hg), hw.assume a c,
      hs.trans (.single (.assume s a c))⟩

/-- Raising the bounds leaves a proof as it was, down to its text, and derives nothing that was not
derivable. A formula of the spine that is a trivial implication is found and then pruned, so that
the search goes on with the store that it was found in. -/
theorem solve_widen {config config' : Config} (hwithin : config.Within config')
    (hypotheses : List Formula) {conclusion : Formula}
    (hspine : ∀ goal ∈ conclusion.spine, goal.isTrivial = false) :
    let outcome := (solve config hypotheses conclusion).value.2
    let outcome' := (solve config' hypotheses conclusion).value.2
    (∀ proof, outcome = .proved proof →
        outcome' = .proved proof ∧ outcome'.report = outcome.report) ∧
      (outcome = .notDerivable → outcome' = .notDerivable) := by
  intro outcome outcome'
  have hsame : (∀ limit, outcome ≠ .limitExceeded limit) → outcome' = outcome :=
    (widens_ofHypotheses hwithin hypotheses).prove (reachable_ofHypotheses config hypotheses) hspine
  constructor
  · intro proof hproved
    have hsame := hsame fun limit hlimit => by rw [hproved] at hlimit; cases hlimit
    exact ⟨hsame.trans hproved, by rw [hsame]⟩
  · intro hnot
    exact (hsame fun limit hlimit => by rw [hnot] at hlimit; cases hlimit).trans hnot

/-- With room for nine facts the pass that finds the goal is cut short by one. -/
theorem solve_widen_cut_short :
    let config : Config := ⟨9, 5, true⟩
    let hypotheses : List Formula := [.imp (.var "A") (.var "B"), .var "C"]
    let conclusion : Formula := .imp (.var "A") (.conj (.var "B") (.var "A"))
    let outcome := (solve config hypotheses conclusion).value.2
    let outcome' := (solve .standard hypotheses conclusion).value.2
    (solve config hypotheses conclusion).value.1.base.size = 10 ∧
      (solve .standard hypotheses conclusion).value.1.base.size = 11 ∧
      ∃ proof, outcome = .proved proof ∧ outcome' = .proved proof ∧
        outcome'.report = outcome.report := by
  intro config hypotheses conclusion outcome outcome'
  have hproved : outcome.isProved = true := by decide +kernel
  obtain ⟨proof, hproof⟩ := Outcome.isProved_iff.mp hproved
  have hwithin : config.Within .standard := ⟨rfl, by decide, by decide⟩
  have hspine : ∀ goal ∈ conclusion.spine, goal.isTrivial = false := by decide
  refine ⟨by decide +kernel, by decide +kernel, proof, hproof, ?_⟩
  exact (solve_widen hwithin hypotheses hspine).1 proof hproof

end Session

end Turnstile
