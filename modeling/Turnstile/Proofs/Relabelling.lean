import Mathlib.Logic.Equiv.Basic
import Turnstile.Proofs.Provenance
import Turnstile.Proofs.Simulation

/-!
Searching treats all atoms alike. The names of the atoms may be changed, as long as different atoms
keep different names, and the signs of any of them turned round: a search then does the same as
before, with its formulas relabelled.

* `Formula.relabel` goes along with every comparison of formulas (`alike_relabel`,
  `sameEntry_relabel`) and with every rule (`Rule.apply_relabel`);
* `FactBase.Image`: a store that holds the relabelled facts under the same numbers. Adding, pruning
  and looking up keep to that, whatever the keys of the facts are;
* `Session.Image`: the same of sessions. `Image.pass`: a pass keeps it. `imaging`: so the two search
  in step;
* `solve_relabel`: so the outcome for a relabelled problem is the relabelled outcome.
-/

namespace Turnstile

/-- New names for the atoms, no two atoms getting the same, and the atoms whose signs are turned
round. -/
structure Relabelling where
  rename : String → String
  injective : ∀ {a b : String}, rename a = rename b → a = b
  flips : String → Bool

theorem Relabelling.rename_beq (r : Relabelling) (a b : String) :
    (r.rename a == r.rename b) = (a == b) := by
  rw [Bool.eq_iff_iff, beq_iff_eq, beq_iff_eq]
  exact ⟨r.injective, congrArg r.rename⟩

/-- Exchanges the names of two atoms and turns round the sign of the first. -/
def Relabelling.exchange (a b : String) : Relabelling where
  rename := Equiv.swap a b
  injective h := (Equiv.swap a b).injective h
  flips name := name == a

/-! ## Formulas -/

namespace Formula

/-- Where an atom's sign is turned round, so is the truth it stores. -/
def relabel (r : Relabelling) : Formula → Formula
  | .atom name negated truth =>
    .atom (r.rename name) (negated ^^ r.flips name) (truth.map (· ^^ r.flips name))
  | .compound op negated left right => .compound op negated (left.relabel r) (right.relabel r)

variable (r : Relabelling)

theorem negate_relabel (f : Formula) : (f.relabel r).negate = f.negate.relabel r := by
  cases f <;> simp [relabel, negate]

theorem holding_relabel (f : Formula) : (f.relabel r).holding = f.holding.relabel r := by
  cases f <;> simp [relabel, holding]

theorem alike_relabel (f g : Formula) : (f.relabel r).alike (g.relabel r) = f.alike g := by
  induction f generalizing g with
  | atom name negated truth =>
    cases g with
    | atom name' negated' truth' =>
      simp only [relabel, alike, r.rename_beq]
      by_cases hname : name = name'
      · subst hname
        cases r.flips name <;> cases negated <;> cases negated' <;> rfl
      · rw [beq_false_of_ne hname, Bool.false_and, Bool.false_and]
    | compound => rfl
  | compound op negated a b iha ihb =>
    cases g with
    | atom => rfl
    | compound => simp only [relabel, alike, iha, ihb]

theorem sameEntry_relabel (f g : Formula) :
    (f.relabel r).sameEntry (g.relabel r) = f.sameEntry g := by
  cases f with
  | atom =>
    cases g with
    | atom => exact r.rename_beq _ _
    | compound => rfl
  | compound => exact alike_relabel r _ g

theorem isTrivial_relabel (f : Formula) : (f.relabel r).isTrivial = f.isTrivial := by
  cases f with
  | atom => rfl
  | compound op negated a b =>
    cases op with
    | implies => exact alike_relabel r a b
    | and | or | iff => rfl

theorem exists_eq_anyImp {f : Formula} (h : f.isAnyImp = true) :
    ∃ negated a b, f = .compound .implies negated a b := by
  unfold isAnyImp at h
  split at h
  · exact ⟨_, _, _, rfl⟩
  · cases h

theorem isNone_atomName?_relabel (f : Formula) :
    (f.relabel r).atomName?.isNone = f.atomName?.isNone := by
  cases f <;> rfl

theorem isSome_truth_relabel (f : Formula) : (f.relabel r).truth.isSome = f.truth.isSome := by
  cases f with
  | atom name negated truth => cases truth <;> rfl
  | compound => rfl

theorem refutes_relabel (f g : Formula) :
    Inference.refutes (f.relabel r) (g.relabel r) = Inference.refutes f g := by
  cases f with
  | atom name negated truth =>
    cases g with
    | atom name' negated' truth' =>
      simp only [Inference.refutes, relabel, r.rename_beq]
      by_cases hname : name = name'
      · subst hname
        cases r.flips name <;> cases negated' <;> rcases truth with _ | _ | _ <;> rfl
      · rw [beq_false_of_ne hname]
        rfl
    | compound => rfl
  | compound op negated a b =>
    have h := alike_relabel r (compound op negated a b) g.negate
    rw [← negate_relabel] at h
    exact h

end Formula

open Formula

/-! ## Rules -/

/-- The tests do not tell a relabelled formula from the formula. -/
def Shape.Overlooks (r : Relabelling) : Shape → Prop
  | .one test => ∀ f, test (f.relabel r) = test f
  | .two first second => ∀ f, first (f.relabel r) = first f ∧ second (f.relabel r) = second f

theorem Rule.overlooks_shape (r : Relabelling) (rule : Rule) : rule.shape.Overlooks r := by
  cases rule with
  | modusPonens | modusTollens | hypotheticalSyllogism | conjunctionIntroduction | proofByCases
    | biconditionalIntroduction =>
    intro f
    cases f with
    | atom name negated truth => cases truth <;> exact ⟨rfl, rfl⟩
    | compound op negated a b => cases op <;> cases negated <;> exact ⟨rfl, rfl⟩
  | exportation =>
    intro f
    cases f with
    | atom => rfl
    | compound op negated a b =>
      -- the test looks into the antecedent as well
      cases a with
      | atom => cases op <;> cases negated <;> rfl
      | compound op' negated' c d =>
        cases op <;> cases negated <;> cases op' <;> cases negated' <;> rfl
  | conditionalDisjunction | contraposition | conjunctionElimination | deMorgan | distribution
    | selfReference | biconditionalElimination =>
    intro f
    cases f with
    | atom => rfl
    | compound op negated a b => cases op <;> cases negated <;> rfl

def Relabelling.translation (r : Relabelling) : Translation :=
  ⟨Formula.relabel r, fun _ _ => rfl, Rule.contraposition.overlooks_shape r⟩

theorem Rule.fits_relabel (r : Relabelling) (rule : Rule) (f : Formula) (g? : Option Formula) :
    rule.shape.fits (f.relabel r) (g?.map (relabel r)) = rule.shape.fits f g? := by
  have h := rule.overlooks_shape r
  cases hshape : rule.shape with
  | one test =>
    rw [hshape] at h
    cases g? with
    | none => exact h f
    | some g => rfl
  | two first second =>
    rw [hshape] at h
    cases g? with
    | none => rfl
    | some g => exact congrArg₂ (· && ·) (h f).1 (h g).2

namespace Inference

variable (r : Relabelling)

theorem map_ite_singleton {α β : Type} (c : Bool) (f : α → β) (x : α) :
    (if c then [x] else []).map f = if c then [f x] else [] := by
  cases c <;> rfl

theorem distinct_map_relabel (formulas : List Formula) :
    distinct (formulas.map (relabel r)) = (distinct formulas).map (relabel r) := by
  have from_any : ∀ kept : List Formula,
      (formulas.map (relabel r)).foldl
          (fun kept f => if kept.any (·.alike f) then kept else kept ++ [f])
          (kept.map (relabel r)) =
        (formulas.foldl (fun kept f => if kept.any (·.alike f) then kept else kept ++ [f])
          kept).map (relabel r) := by
    induction formulas with
    | nil => exact fun _ => rfl
    | cons f formulas ih =>
      intro kept
      rw [List.map_cons, List.foldl_cons, List.foldl_cons, ← ih]
      congr 1
      simp only [List.any_map, Function.comp_def, alike_relabel]
      split <;> simp
  exact from_any []

theorem factor_relabel (f g : Formula) :
    factor (f.relabel r) (g.relabel r) = (factor f g).map (relabel r) := by
  cases f with
  | atom => rfl
  | compound op negated a b =>
    cases op with
    | and | implies | iff => rfl
    | or =>
      cases negated with
      | true => rfl
      | false =>
        cases g with
        | atom => rfl
        | compound op negated c d =>
          cases op with
          | and | implies | iff => rfl
          | or =>
            cases negated with
            | true => rfl
            | false =>
              rw [relabel, relabel, factor, factor, ← distinct_map_relabel]
              simp only [List.flatMap_cons, List.flatMap_nil, List.filterMap_cons,
                List.filterMap_nil, alike_relabel]
              cases a.alike c <;> cases a.alike d <;> cases b.alike c <;> cases b.alike d <;> rfl

theorem distributeLeft_relabel (f g : Formula) :
    distributeLeft (f.relabel r) (g.relabel r) = (distributeLeft f g).map (relabel r) := by
  cases f with
  | atom => rfl
  | compound op negated => cases op <;> cases negated <;> rfl

theorem distributeRight_relabel (f g : Formula) :
    distributeRight (f.relabel r) (g.relabel r) = (distributeRight f g).map (relabel r) := by
  cases g with
  | atom => rfl
  | compound op negated => cases op <;> cases negated <;> rfl

theorem modusPonens_relabel (f : Formula) {g : Formula} (hg : g.isImp = true) :
    modusPonens (f.relabel r) (g.relabel r) = (modusPonens f g).map (relabel r) := by
  obtain ⟨a, b, rfl⟩ := exists_eq_imp hg
  simp only [modusPonens, relabel, isNone_atomName?_relabel, isSome_truth_relabel, alike_relabel,
    holding_relabel, map_ite_singleton]

theorem modusTollens_relabel (f : Formula) {g : Formula} (hg : g.isImp = true) :
    modusTollens (f.relabel r) (g.relabel r) = (modusTollens f g).map (relabel r) := by
  obtain ⟨a, b, rfl⟩ := exists_eq_imp hg
  simp only [modusTollens, relabel, refutes_relabel, negate_relabel, holding_relabel,
    map_ite_singleton]

theorem hypotheticalSyllogism_relabel {f g : Formula} (hf : f.isAnyImp = true)
    (hg : g.isAnyImp = true) :
    hypotheticalSyllogism (f.relabel r) (g.relabel r) =
      (hypotheticalSyllogism f g).map (relabel r) := by
  obtain ⟨negated, a, b, rfl⟩ := exists_eq_anyImp hf
  obtain ⟨negated', b', c, rfl⟩ := exists_eq_anyImp hg
  simp only [hypotheticalSyllogism, relabel, negate_relabel, alike_relabel, map_ite_singleton]

theorem proofByCases_relabel {f g : Formula} (hf : f.isImp = true) (hg : g.isImp = true) :
    proofByCases (f.relabel r) (g.relabel r) = (proofByCases f g).map (relabel r) := by
  obtain ⟨a, c, rfl⟩ := exists_eq_imp hf
  obtain ⟨a', c', rfl⟩ := exists_eq_imp hg
  simp only [proofByCases, relabel, negate_relabel, alike_relabel, holding_relabel,
    map_ite_singleton]

theorem biconditionalIntroduction_relabel {f g : Formula} (hf : f.isImp = true)
    (hg : g.isImp = true) :
    biconditionalIntroduction (f.relabel r) (g.relabel r) =
      (biconditionalIntroduction f g).map (relabel r) := by
  obtain ⟨a, b, rfl⟩ := exists_eq_imp hf
  obtain ⟨b', a', rfl⟩ := exists_eq_imp hg
  simp only [biconditionalIntroduction, relabel, alike_relabel, map_ite_singleton]
  rfl

theorem conjunctionIntroduction_relabel (f g : Formula) :
    conjunctionIntroduction (f.relabel r) (g.relabel r) =
      (conjunctionIntroduction f g).map (relabel r) := by
  cases f with
  | atom name negated truth =>
    cases g with
    | atom name' negated' truth' =>
      simp only [conjunctionIntroduction, relabel, r.rename_beq]
      split <;> rfl
    | compound => rfl
  | compound => rfl

theorem distribution_relabel (f : Formula) :
    distribution (f.relabel r) = (distribution f).map (relabel r) := by
  cases f with
  | atom => rfl
  | compound op negated a b =>
    cases negated with
    | true => cases op <;> rfl
    | false =>
      cases op with
      | and => exact factor_relabel r a b
      | or =>
        simp only [distribution, relabel, distributeLeft_relabel, distributeRight_relabel,
          List.map_append]
      | implies | iff => rfl

end Inference

/-- Premises of the right shape give the relabelled conclusions. -/
theorem Rule.conclude_relabel (r : Relabelling) (rule : Rule) (f : Formula) (g? : Option Formula)
    (hfits : rule.shape.fits f g? = true) :
    rule.conclude (f.relabel r) (g?.map (relabel r)) = (rule.conclude f g?).map (relabel r) := by
  cases g? with
  | some g =>
    cases rule with
    | modusPonens => exact Inference.modusPonens_relabel r f hfits
    | modusTollens => exact Inference.modusTollens_relabel r f hfits
    | hypotheticalSyllogism =>
      obtain ⟨hf, hg⟩ := (Bool.and_eq_true _ _).mp hfits
      exact Inference.hypotheticalSyllogism_relabel r hf hg
    | conjunctionIntroduction => exact Inference.conjunctionIntroduction_relabel r f g
    | proofByCases =>
      obtain ⟨hf, hg⟩ := (Bool.and_eq_true _ _).mp hfits
      exact Inference.proofByCases_relabel r hf hg
    | biconditionalIntroduction =>
      obtain ⟨hf, hg⟩ := (Bool.and_eq_true _ _).mp hfits
      exact Inference.biconditionalIntroduction_relabel r hf hg
    | _ => cases hfits
  | none =>
    cases rule with
    | modusPonens | modusTollens | hypotheticalSyllogism | conjunctionIntroduction | proofByCases
      | biconditionalIntroduction => cases hfits
    | distribution => exact Inference.distribution_relabel r f
    | exportation =>
      cases f with
      | atom => rfl
      | compound op negated a b =>
        cases a with
        | atom => cases op <;> cases negated <;> rfl
        | compound op' negated' c d =>
          cases op <;> cases negated <;> cases op' <;> cases negated' <;> rfl
    | conditionalDisjunction | contraposition | conjunctionElimination | deMorgan | selfReference
      | biconditionalElimination =>
      cases f with
      | atom => rfl
      | compound op negated a b =>
        cases op <;> cases negated <;>
          simp [conclude, Inference.conditionalDisjunction, Inference.contraposition,
            Inference.conjunctionElimination, Inference.deMorgan, Inference.selfReference,
            Inference.biconditionalElimination, relabel, negate_relabel, holding_relabel,
            alike_relabel, Inference.map_ite_singleton, imp, disj]

theorem Rule.apply_relabel (r : Relabelling) (rule : Rule) (f : Formula) (g? : Option Formula) :
    rule.apply (f.relabel r) (g?.map (relabel r)) = (rule.apply f g?).map (relabel r) := by
  unfold apply
  rw [fits_relabel]
  split
  · next hfits => exact rule.conclude_relabel r f g? hfits
  · rfl

/-! ## Facts and conclusions -/

def Fact.relabel (r : Relabelling) (fact : Fact) : Fact :=
  { fact with formula := fact.formula.relabel r }

def Entry.relabel (r : Relabelling) (e : Entry) : Entry := { e with fact := e.fact.relabel r }

def Match.relabel (r : Relabelling) (m : Match) : Match :=
  { m with formula := m.formula.relabel r }

def Assumption.relabel (r : Relabelling) (a : Assumption) : Assumption :=
  ⟨a.assumed.relabel r, a.goal.relabel r, a.fact⟩

/-- Facts under their numbers, relabelled. -/
def relabelFacts (r : Relabelling) (facts : List (FactId × Fact)) : List (FactId × Fact) :=
  facts.map fun p => (p.1, p.2.relabel r)

theorem Rule.search_relabel (r : Relabelling) (rule : Rule) (facts : List (FactId × Fact))
    (fresh : FactId → Bool) :
    rule.search (relabelFacts r facts) fresh = (rule.search facts fresh).map (Match.relabel r) := by
  have h := rule.overlooks_shape r
  have hone : ∀ f : Formula,
      rule.apply (f.relabel r) none = (rule.apply f none).map (Formula.relabel r) :=
    fun f => rule.apply_relabel r f none
  have htwo : ∀ f g : Formula,
      rule.apply (f.relabel r) (some (g.relabel r)) =
        (rule.apply f (some g)).map (Formula.relabel r) :=
    fun f g => rule.apply_relabel r f (some g)
  unfold search
  cases hshape : rule.shape with
  | one test =>
    rw [hshape] at h
    have h : ∀ f, test (f.relabel r) = test f := h
    simp only [relabelFacts, List.filter_map, List.flatMap_map, List.map_flatMap,
      Function.comp_def, Fact.relabel, h, hone, List.map_map, Match.relabel]
  | two first second =>
    rw [hshape] at h
    have h : ∀ f, first (f.relabel r) = first f ∧ second (f.relabel r) = second f := h
    simp only [relabelFacts, List.filter_map, List.flatMap_map, List.map_flatMap,
      Function.comp_def, Fact.relabel, h, htwo, List.map_map, Match.relabel,
      apply_ite (List.map _), List.map_nil]

/-! ## Stores -/

namespace FactBase

/-- `c` holds the relabelled facts of `b` under the same numbers, and has the same ones in use.
Their keys need have nothing in common. -/
def Image (r : Relabelling) (b c : FactBase) : Prop := c.entries = b.entries.map (Entry.relabel r)

namespace Image

variable {r : Relabelling} {b c : FactBase}

theorem size_eq (h : b.Image r c) : c.size = b.size := by
  rw [size, h, Array.size_map, size]

theorem get?_eq (h : b.Image r c) (id : FactId) : c.get? id = (b.get? id).map (Fact.relabel r) := by
  rw [get?, get?, h, Array.getElem?_map, Option.map_map, Option.map_map]
  rfl

theorem live_eq (h : b.Image r c) : c.live = relabelFacts r b.live := by
  rw [live, live, relabelFacts, h, Array.toList_map, List.zipIdx_map, List.filterMap_map,
    List.map_filterMap]
  congr 1
  funext p
  obtain ⟨⟨fact, live⟩, id⟩ := p
  cases live <;> rfl

/-- The facts are gone through in the same order on both sides. -/
theorem holder?_eq (h : b.Image r c) (f : Formula) : c.holder? (f.relabel r) = b.holder? f := by
  rw [holder?_eq_find?, holder?_eq_find?, h.size_eq]
  congr 1
  funext id
  rw [h, Array.getElem?_map, Option.any_map]
  congr 1
  funext e
  exact sameEntry_relabel r _ _

theorem contains_eq (h : b.Image r c) (f : Formula) : c.contains (f.relabel r) = b.contains f := by
  rw [contains, contains, h.holder?_eq]

theorem find?_eq (h : b.Image r c) (f : Formula) : c.find? (f.relabel r) = b.find? f := by
  rw [find?, find?, h.holder?_eq]
  congr 1
  funext id
  rw [h, Array.getElem?_map, Option.any_map]
  congr 1
  funext e
  exact congrArg (e.live && ·) (alike_relabel r _ _)

theorem push (h : b.Image r c) (fact : Fact) :
    (b.push fact).value.1.Image r (c.push (fact.relabel r)).value.1 ∧
      (c.push (fact.relabel r)).value.2 = (b.push fact).value.2 := by
  have hcontains : c.contains (fact.relabel r).formula = b.contains fact.formula :=
    h.contains_eq fact.formula
  cases hheld : b.contains fact.formula with
  | true =>
    rw [hheld] at hcontains
    rw [value_push_of_contains hheld, value_push_of_contains hcontains]
    exact ⟨h, rfl⟩
  | false =>
    rw [hheld] at hcontains
    rw [value_push_of_not_contains hheld, value_push_of_not_contains hcontains]
    refine ⟨?_, by rw [h.size_eq]⟩
    change c.entries.push ⟨fact.relabel r, true⟩ =
      (b.entries.push ⟨fact, true⟩).map (Entry.relabel r)
    rw [h, Array.map_push]
    rfl

theorem prune (h : b.Image r c) : b.prune.value.1.Image r c.prune.value.1 := by
  change c.entries.map Entry.prune = (b.entries.map Entry.prune).map (Entry.relabel r)
  rw [h, Array.map_map, Array.map_map]
  congr 1
  funext e
  simp only [Function.comp_apply, Entry.prune, Entry.relabel, Fact.relabel, isTrivial_relabel]

theorem addMatches (h : b.Image r c) (maxFacts : Nat) (matched : List Match) :
    (b.addMatches maxFacts matched).value.1.Image r
      (c.addMatches maxFacts (matched.map (Match.relabel r))).value.1 := by
  have from_any : ∀ {b c : FactBase} (n : Nat), b.Image r c →
      (matched.foldl (addOne maxFacts) (b, n)).1.Image r
        ((matched.map (Match.relabel r)).foldl (addOne maxFacts) (c, n)).1 := by
    induction matched with
    | nil => exact fun _ h => h
    | cons m matched ih =>
      intro b c n h
      rw [List.map_cons, List.foldl_cons, List.foldl_cons, addOne, addOne, h.size_eq]
      split
      · exact ih n h
      · have hcontains : c.contains (m.relabel r).formula = b.contains m.formula :=
          h.contains_eq m.formula
        dsimp only
        rw [hcontains]
        split
        · exact ih n h
        · exact ih (n + 1) (h.push m.toFact).1
  rw [value_addMatches, value_addMatches]
  exact from_any 0 h

/-- Listing looks at numbers only. -/
theorem list_eq (h : b.Image r c) (bound : Nat) :
    ∀ (listed : List FactId) (id : FactId), c.list bound listed id = b.list bound listed id := by
  induction bound with
  | zero => exact fun _ _ => rfl
  | succ bound ih =>
    intro listed id
    have hlist : c.list bound = b.list bound := funext fun listed => funext (ih listed)
    rw [list, list, h.get?_eq, hlist]
    cases b.get? id <;> rfl

end Image

end FactBase

/-! ## Sessions -/

namespace Session

/-- The two sessions are at the same point of their searches, the second with relabelled
formulas. -/
structure Image (r : Relabelling) (s t : Session) : Prop where
  config : t.config = s.config
  base : s.base.Image r t.base
  frontier : t.frontier = s.frontier
  assumptions : t.assumptions = s.assumptions.map (Assumption.relabel r)
  passes : t.tally.passes = s.tally.passes

namespace Image

variable {r : Relabelling} {s t : Session}

theorem isFresh_eq (h : s.Image r t) : t.isFresh = s.isFresh := by
  funext id
  rw [isFresh, isFresh, h.config, h.frontier]

theorem found_eq (h : s.Image r t) : t.found = s.found.map (Match.relabel r) := by
  rw [found, found, foundOver, foundOver, List.map_flatMap, h.base.live_eq, h.isFresh_eq]
  simp only [Rule.search_relabel]

theorem pass (h : s.Image r t) : s.pass.value.1.Image r t.pass.value.1 where
  config := h.config
  base := by
    rw [pass_base, pass_base, h.config, h.found_eq]
    exact h.base.addMatches s.config.maxFacts s.found
  frontier := by rw [pass_frontier, pass_frontier, h.base.size_eq]
  assumptions := h.assumptions
  passes := by simp only [pass_tally, Tally.add, pass_passes, h.passes]

theorem prune (h : s.Image r t) : s.prune.value.Image r t.prune.value :=
  ⟨h.config, h.base.prune, h.frontier, h.assumptions, h.passes⟩

theorem addHypothesis (h : s.Image r t) (f : Formula) :
    (s.addHypothesis f).value.1.Image r (t.addHypothesis (f.relabel r)).value.1 := by
  have hfact : (Fact.hypothesis f).relabel r = .hypothesis (f.relabel r) := by
    rw [Fact.hypothesis, Fact.hypothesis, holding_relabel]
    rfl
  have hpush := (h.base.push (.hypothesis f)).1
  rw [hfact] at hpush
  exact ⟨h.config, hpush, h.frontier, h.assumptions, h.passes⟩

theorem assume (h : s.Image r t) (a g : Formula) :
    (s.assume a g).value.Image r (t.assume (a.relabel r) (g.relabel r)).value := by
  have hfact : (Fact.assumption a).relabel r = .assumption (a.relabel r) := by
    rw [Fact.assumption, Fact.assumption, holding_relabel]
    rfl
  obtain ⟨hpush, hid⟩ := h.base.push (.assumption a)
  rw [hfact] at hpush hid
  refine ⟨h.config, hpush, h.frontier, ?_, h.passes⟩
  rw [assume_assumptions, assume_assumptions, h.assumptions, hid, hpush.find?_eq, List.map_append]
  rfl

end Image

theorem image_ofHypotheses (r : Relabelling) (config : Config) (hypotheses : List Formula) :
    (ofHypotheses config hypotheses).value.Image r
      (ofHypotheses config (hypotheses.map (relabel r))).value := by
  rw [value_ofHypotheses, value_ofHypotheses]
  have from_any : ∀ {s t : Session}, s.Image r t →
      (hypotheses.foldl (fun s h => (s.addHypothesis h).value.1) s).Image r
        ((hypotheses.map (relabel r)).foldl (fun s h => (s.addHypothesis h).value.1) t) := by
    induction hypotheses with
    | nil => exact fun h => h
    | cons f hypotheses ih => exact fun h => ih (h.addHypothesis f)
  have hstart : (start config).Image r (start config) :=
    ⟨rfl, Array.map_empty.symm, rfl, rfl, rfl⟩
  exact from_any hstart

end Session

/-! ## Proofs and outcomes -/

def Line.relabel (r : Relabelling) (line : Line) : Line :=
  { line with formula := line.formula.relabel r }

/-- Only the formulas change: lines keep their numbers and what they cite. -/
def Proof.relabel (r : Relabelling) (p : Proof) : Proof :=
  ⟨p.assumptions.map (Assumption.relabel r), p.lines.map (Line.relabel r), p.goal⟩

def Outcome.relabel (r : Relabelling) : Outcome → Outcome
  | .proved proof => .proved (proof.relabel r)
  | .notDerivable => .notDerivable
  | .limitExceeded limit => .limitExceeded limit

theorem Outcome.Rel.eq_relabel {r : Relabelling} {outcome outcome' : Outcome}
    (h : outcome.Rel (fun p p' => p' = p.relabel r) outcome') : outcome' = outcome.relabel r := by
  cases h with
  | proved hsame => rw [hsame, Outcome.relabel]
  | notDerivable | limitExceeded => rfl

theorem FactBase.Image.toLine_eq {r : Relabelling} {b c : FactBase} (h : b.Image r c)
    (listed : List FactId) (id : FactId) :
    c.toLine listed id = (b.toLine listed id).map (Line.relabel r) := by
  rw [toLine, toLine, h.get?_eq, Option.map_map, Option.map_map]
  rfl

namespace Session

namespace Image

variable {r : Relabelling} {s t : Session}

theorem listing_eq (h : s.Image r t) (goal : FactId) : t.listing goal = s.listing goal := by
  have hlist : t.base.list t.base.size = s.base.list s.base.size := by
    rw [h.base.size_eq]
    exact funext fun listed => funext (h.base.list_eq s.base.size listed)
  simp only [listing, hlist, h.base.live_eq, h.assumptions, relabelFacts, List.filter_map,
    List.map_map, List.filterMap_map, Function.comp_def]
  rfl

theorem proofOf_eq (h : s.Image r t) (goal : FactId) :
    t.proofOf goal = (s.proofOf goal).relabel r := by
  have hlines := funext (h.base.toLine_eq (s.listing goal))
  simp only [proofOf, Proof.relabel, h.listing_eq, h.assumptions, List.map_filterMap, hlines]

end Image

/-- A session and one with relabelled formulas search in step. The facts have the same numbers. -/
def imaging (r : Relabelling) : Simulation where
  image := r.translation
  Rel := Image r
  SameFact := Eq
  SameProof p p' := p' = p.relabel r
  Fits _ := True
  Admits _ := True
  fits_of_step _ _ := trivial
  admits_of_imp _ := trivial
  counts h := ⟨by rw [h.config], by rw [h.config], h.base.size_eq, h.passes⟩
  find? h f := rel_of_eq (h.base.find?_eq f)
  proofOf h _ _ hsame := by rw [h.proofOf_eq, hsame]
  pass h _ _ _ := h.pass
  prune := Image.prune
  assume h a c _ := h.assume a c

/-- The outcome for a relabelled problem is the relabelled outcome: of the same kind and with the
same limit, and a proof has the same lines, citing the same, with relabelled formulas. -/
theorem solve_relabel (r : Relabelling) (config : Config) (hypotheses : List Formula)
    (conclusion : Formula) :
    (solve config (hypotheses.map (relabel r)) (conclusion.relabel r)).value.2 =
      (solve config hypotheses conclusion).value.2.relabel r := by
  have hstart := image_ofHypotheses r config hypotheses
  exact ((imaging r).prove conclusion trivial hstart trivial).2.eq_relabel

/-- From `A → B` and `¬B` to `¬A`, and with the two names exchanged and the sign of the first turned
round, from `¬B → A` and `¬A` to `B`. -/
theorem solve_relabel_exchanged :
    let r : Relabelling := .exchange "A" "B"
    let hypotheses : List Formula := [.imp (.var "A") (.var "B"), (Formula.var "B").negate]
    let conclusion : Formula := (Formula.var "A").negate
    let hypotheses' : List Formula :=
      [.imp (Formula.var "B").negate (.var "A"), (Formula.var "A").negate]
    let conclusion' : Formula := .var "B"
    hypotheses.map (relabel r) = hypotheses' ∧ conclusion.relabel r = conclusion' ∧
      ∃ proof, (solve .standard hypotheses conclusion).value.2 = .proved proof ∧
        (solve .standard hypotheses' conclusion').value.2 = .proved (proof.relabel r) := by
  intro r hypotheses conclusion hypotheses' conclusion'
  have hhypotheses : hypotheses.map (relabel r) = hypotheses' := by decide
  have hconclusion : conclusion.relabel r = conclusion' := by decide
  have hproved : (solve .standard hypotheses conclusion).value.2.isProved = true := by
    decide +kernel
  obtain ⟨proof, hproof⟩ := Outcome.isProved_iff.mp hproved
  have hrelabel := solve_relabel r .standard hypotheses conclusion
  rw [hhypotheses, hconclusion, hproof] at hrelabel
  exact ⟨hhypotheses, hconclusion, proof, hproof, hrelabel⟩

end Session

end Turnstile
