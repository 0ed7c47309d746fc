import Turnstile.Proofs.Frontier
import Turnstile.Proofs.Simulation

/-!
A session whose passes look only at premises with a fresh fact, and one whose passes look at all
premises, do the same.

* `Twin`: the two sessions agree in all but the setting and in the conclusions they count as found,
  where the first has no more for any rule;
* `Twin.pass`: a pass leaves twins, since what the first does not look at is held already.
  `twinning`: so they search in step, and every command leaves twins and gives the same reply;
* `seminaive_eq_naive`: from the start, whatever the commands.
-/

namespace Turnstile

/-! ## Counts of conclusions found -/

namespace PerRule

/-- The number kept for a rule, nought if there is none. -/
def count (t : PerRule) (rule : Rule) : Nat := (t.get? rule).getD 0

private theorem lookup_filterMap (number? : Rule → Option Nat) (rules : List Rule) (rule : Rule) :
    (rules.filterMap fun r => (number? r).map (Prod.mk r)).lookup rule =
      if rule ∈ rules then number? rule else none := by
  induction rules with
  | nil => rfl
  | cons r rules ih =>
    by_cases hr : rule = r
    · subst hr
      cases hnumber : number? rule with
      | some n => simp [hnumber]
      | none => simp [hnumber, ih]
    · cases hnumber : number? r with
      | some n => simp [hnumber, ih, hr, List.lookup_cons, beq_false_of_ne hr]
      | none => simp [hnumber, ih, hr]

/-- A table made over the whole catalog has the number it was made with. -/
private theorem count_catalog (number? : Rule → Option Nat) (rule : Rule) :
    count (Rule.catalog.filterMap fun r => (number? r).map (Prod.mk r)) rule =
      (number? rule).getD 0 := by
  rw [count, get?, lookup_filterMap, if_pos rule.mem_catalog]

theorem count_add (s t : PerRule) (rule : Rule) :
    (s.add t).count rule = s.count rule + t.count rule := by
  have hadd : s.add t = Rule.catalog.filterMap fun r =>
      (if s.get? r = none ∧ t.get? r = none then none else some (s.count r + t.count r)).map
        (Prod.mk r) := by
    unfold add count
    congr
    funext r
    cases s.get? r <;> cases t.get? r <;> simp
  rw [hadd, count_catalog]
  split
  · next h => simp [count, h.1, h.2]
  · rfl

theorem count_map_catalog (number : Rule → Nat) (rule : Rule) :
    count (Rule.catalog.map fun r => (r, number r)) rule = number rule := by
  rw [← List.filterMap_eq_map]
  exact count_catalog (fun r => some (number r)) rule

end PerRule

namespace Session

theorem count_found_pass (s : Session) (rule : Rule) :
    s.pass.value.2.found.count rule = (rule.search s.base.live s.isFresh).length := by
  rw [← PerRule.count_map_catalog (fun r => (r.search s.base.live s.isFresh).length) rule]
  rfl

/-! ## Twins -/

structure Twin (s t : Session) : Prop where
  seminaive : s.config.seminaive = true
  config : t.config = { s.config with seminaive := false }
  base : t.base = s.base
  frontier : t.frontier = s.frontier
  assumptions : t.assumptions = s.assumptions
  passes : t.tally.passes = s.tally.passes
  factsAdded : t.tally.factsAdded = s.tally.factsAdded
  found : ∀ rule, s.tally.found.count rule ≤ t.tally.found.count rule

namespace Twin

variable {s t : Session}

theorem maxFacts (h : s.Twin t) : t.config.maxFacts = s.config.maxFacts := by rw [h.config]

theorem maxPasses (h : s.Twin t) : t.config.maxPasses = s.config.maxPasses := by rw [h.config]

theorem isFresh (h : s.Twin t) : t.isFresh = fun _ => true := by
  funext id
  rw [Session.isFresh, h.config]
  rfl

/-- Of all conclusions, the first session looks at those with a fresh premise. -/
theorem found_eq_filter (h : s.Twin t) :
    s.found = t.found.filter fun m => m.parents.any s.isFresh := by
  simp only [Session.found, foundOver, List.filter_flatMap, h.isFresh, h.base,
    ← Rule.search_eq_filter]

theorem value_addMatches (h : s.Twin t) (hs : s.Explored)
    (hsize : s.base.size ≤ s.config.maxFacts) :
    (t.base.addMatches t.config.maxFacts t.found).value =
      (s.base.addMatches s.config.maxFacts s.found).value := by
  rw [h.found_eq_filter, h.base, h.maxFacts]
  refine (FactBase.addMatches_filter fun m hm hstale => ?_).symm
  have hm := (mem_found.mp hm).1
  rw [h.base] at hm
  exact hs.contains_of_not_fresh hsize hm hstale

theorem pass_factsAdded_eq (h : s.Twin t) (hs : s.Explored)
    (hsize : s.base.size ≤ s.config.maxFacts) :
    t.pass.value.2.factsAdded = s.pass.value.2.factsAdded := by
  rw [pass_factsAdded, pass_factsAdded, h.value_addMatches hs hsize]

theorem count_found_pass_le (h : s.Twin t) (rule : Rule) :
    s.pass.value.2.found.count rule ≤ t.pass.value.2.found.count rule := by
  rw [count_found_pass, count_found_pass, h.isFresh, h.base, Rule.search_eq_filter rule _ s.isFresh]
  exact List.length_filter_le _ _

theorem pass (h : s.Twin t) (hs : s.Explored) (hsize : s.base.size ≤ s.config.maxFacts) :
    s.pass.value.1.Twin t.pass.value.1 where
  seminaive := h.seminaive
  config := h.config
  base := by rw [pass_base, pass_base, h.value_addMatches hs hsize]
  frontier := by rw [pass_frontier, pass_frontier, h.base]
  assumptions := h.assumptions
  passes := by simp only [pass_tally, Tally.add, pass_passes, h.passes]
  factsAdded := by simp only [pass_tally, Tally.add, h.pass_factsAdded_eq hs hsize, h.factsAdded]
  found rule := by
    simp only [pass_tally, Tally.add, PerRule.count_add]
    exact Nat.add_le_add (h.found rule) (h.count_found_pass_le rule)

/-- Any step that looks at the store and the assumptions alone leaves twins. -/
theorem replace (h : s.Twin t) {b c : FactBase} {as bs : List Assumption} (hbase : c = b)
    (hassumptions : bs = as) :
    Twin { s with base := b, assumptions := as } { t with base := c, assumptions := bs } :=
  ⟨h.seminaive, h.config, hbase, h.frontier, hassumptions, h.passes, h.factsAdded, h.found⟩

theorem addHypothesis (h : s.Twin t) (f : Formula) :
    (s.addHypothesis f).value.1.Twin (t.addHypothesis f).value.1 :=
  h.replace (by rw [h.base]) h.assumptions

theorem prune (h : s.Twin t) : s.prune.value.Twin t.prune.value :=
  h.replace (by rw [h.base]) h.assumptions

theorem assume (h : s.Twin t) (a g : Formula) :
    (s.assume a g).value.Twin (t.assume a g).value :=
  h.replace (by rw [h.base]) (by rw [h.base, h.assumptions])

theorem proofOf (h : s.Twin t) (id : FactId) : t.proofOf id = s.proofOf id := by
  rw [Session.proofOf, Session.proofOf, listing, listing, h.base, h.assumptions]

end Twin

/-- Twins search in step, with the same facts and proofs, and the first of them stays explored. -/
def twinning : Simulation where
  image := .identity
  Rel s t := s.Twin t ∧ s.Explored
  SameFact := Eq
  SameProof := Eq
  Fits _ := True
  Admits _ := True
  fits_of_step _ _ := trivial
  admits_of_imp _ := trivial
  counts h := ⟨h.1.maxFacts, h.1.maxPasses, by rw [h.1.base], h.1.passes⟩
  find? h f := rel_of_eq (by rw [h.1.base, Translation.identity_map])
  proofOf h _ _ hsame := by rw [h.1.proofOf, hsame]
  pass h hsize _ _ := ⟨h.1.pass h.2 hsize, h.2.pass⟩
  prune h := ⟨h.1.prune, (Step.search (.prune _)).explored h.2⟩
  assume {_ _} h {a c} _ := ⟨h.1.assume a c, (Step.assume _ a c).explored h.2⟩

/-! ## Commands to twins -/

/-- Twins are left, with the same answer. -/
def Agree {α : Type} (x y : Session × α) : Prop := twinning.Rel x.1 y.1 ∧ y.2 = x.2

namespace Twin

variable {s t : Session}

theorem agree_saturate (h : twinning.Rel s t) (goal : Formula) :
    Agree (s.saturate goal).value (t.saturate goal).value := by
  obtain ⟨hsat, hending⟩ := twinning.saturate h goal trivial
  exact ⟨hsat, hending.eq⟩

theorem agree_prove (h : twinning.Rel s t) (goal : Formula) :
    Agree (s.prove goal).value (t.prove goal).value := by
  obtain ⟨hprove, houtcome⟩ := twinning.prove goal trivial h trivial
  exact ⟨hprove, houtcome.eq⟩

theorem agree_perform (h : twinning.Rel s t) (c : Command) :
    Agree (s.perform c).value (t.perform c).value := by
  cases c with
  | add f =>
    refine ⟨⟨h.1.addHypothesis f, (Step.add s f).explored h.2⟩, congrArg Reply.added ?_⟩
    rw [h.1.base]
  | saturate goal =>
    obtain ⟨hsat, hending⟩ := agree_saturate h goal
    exact ⟨hsat, congrArg Reply.saturated hending⟩
  | prove goal =>
    obtain ⟨hprove, houtcome⟩ := agree_prove h goal
    exact ⟨hprove, congrArg Reply.tried houtcome⟩

theorem agree_performAll (cs : List Command) :
    ∀ {s t : Session}, twinning.Rel s t →
      Agree (s.performAll cs).value (t.performAll cs).value := by
  induction cs with
  | nil => exact fun h => ⟨h, rfl⟩
  | cons c cs ih =>
    intro s t h
    obtain ⟨hfirst, hreply⟩ := agree_perform h c
    obtain ⟨hrest, hreplies⟩ := ih hfirst
    exact ⟨hrest, congrArg₂ List.cons hreply hreplies⟩

end Twin

theorem twin_start (config : Config) :
    (start { config with seminaive := true }).Twin (start { config with seminaive := false }) where
  seminaive := rfl
  config := rfl
  base := rfl
  frontier := rfl
  assumptions := rfl
  passes := rfl
  factsAdded := rfl
  found _ := Nat.le_refl _

/-- Whatever the commands, looking only at premises with a fresh fact gives the same replies and
the same facts in the same order, with the same origins, the same ones in use and the same atoms.
Only fewer conclusions may be found. As this is so of every list of commands, it is so after each
command of a list. -/
theorem seminaive_eq_naive (config : Config) (cs : List Command) :
    let lazy := ((start { config with seminaive := true }).performAll cs).value
    let full := ((start { config with seminaive := false }).performAll cs).value
    lazy.2 = full.2 ∧ lazy.1.base = full.1.base ∧ lazy.1.assumptions = full.1.assumptions ∧
      lazy.1.tally.passes = full.1.tally.passes ∧
      lazy.1.tally.factsAdded = full.1.tally.factsAdded ∧
      ∀ rule, lazy.1.tally.found.count rule ≤ full.1.tally.found.count rule := by
  intro lazy full
  obtain ⟨⟨htwin, _⟩, hreplies⟩ := Twin.agree_performAll cs ⟨twin_start config, explored_start _⟩
  exact ⟨hreplies.symm, htwin.base.symm, htwin.assumptions.symm, htwin.passes.symm,
    htwin.factsAdded.symm, htwin.found⟩

end Session

end Turnstile
