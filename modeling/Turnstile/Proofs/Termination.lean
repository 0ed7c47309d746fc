import Mathlib.Data.Finset.Lattice.Fold
import Mathlib.Order.Lattice.Nat
import Turnstile.Proofs.Deduction
import Turnstile.Proofs.Limits

/-!
When a search closes. Twelve of the fourteen rules put together at most two subformulas of what they
are applied to, of either sign, so that by themselves they come to an end. Exportation and
Distribution build larger operands, and the Hypothetical Syllogism can feed these back to them.

* `Stock`: a set of formulas closed under negation and taking operands. From premises with operands
  in a stock the twelve rules conclude formulas with operands in it
  (`Stock.composedOf_of_drawnFrom`);
* `FactBase.exists_size_le`: so, without facts by the two rules, a store can grow only so far;
* `SaturatesTo.size_of_limit`: a search that runs into a bound has stored as many facts as that;
* `saturate_closes_iff`: hence there are bounds within which a search ends if, and only if, the
  facts that come by Exportation or Distribution are limited in number. There are none of them if
  no hypothesis has a conjunction or disjunction below its outermost connective;
* `not_saturate_closes`: with `(A ∧ B) → A` no bounds suffice.
-/

namespace Turnstile

open Formula Inference

/-! ## Rules and operands -/

/-- Whether the conclusions may have operands that the premises have not. -/
def Rule.enlarges : Rule → Bool
  | .exportation | .distribution => true
  | _ => false

/-- A set of formulas that has the negations and the operands of its formulas, whatever the stored
truths. -/
structure Stock (stock : Formula → Prop) : Prop where
  negate : ∀ {f}, stock f → stock f.negate
  holding : ∀ {f}, stock f → stock f.holding
  operands : ∀ {op negated l r}, stock (.compound op negated l r) → stock l ∧ stock r

/-- An atom of the stock, or a compound formula with operands from it. -/
def Formula.ComposedOf (stock : Formula → Prop) : Formula → Prop
  | .atom name negated truth => stock (.atom name negated truth)
  | .compound _ _ l r => stock l ∧ stock r

namespace Stock

variable {stock : Formula → Prop}

theorem composedOf (hstock : Stock stock) {f : Formula} (h : stock f) : f.ComposedOf stock := by
  cases f with
  | atom => exact h
  | compound => exact hstock.operands h

theorem composedOf_holding (hstock : Stock stock) {f : Formula} (h : stock f) :
    f.holding.ComposedOf stock :=
  hstock.composedOf (hstock.holding h)

theorem composedOf_of_mem_two (hstock : Stock stock) {rule : Rule} {f g c : Formula}
    (hrule : rule.arity = 2) (hf : f.ComposedOf stock) (hg : g.ComposedOf stock)
    (hc : c ∈ rule.conclude f (some g)) : c.ComposedOf stock := by
  cases rule with
  | modusPonens =>
    obtain ⟨a, b, rfl, _, _, rfl⟩ := mem_modusPonens.mp hc
    exact hstock.composedOf_holding hg.2
  | modusTollens =>
    obtain ⟨a, b, rfl, _, rfl⟩ := mem_modusTollens.mp hc
    exact hstock.composedOf_holding (hstock.negate hg.1)
  | hypotheticalSyllogism =>
    obtain ⟨negated, a, b, b', d, rfl, rfl, _, _, rfl⟩ := mem_hypotheticalSyllogism.mp hc
    exact ⟨hf.1, hg.2⟩
  | conjunctionIntroduction =>
    obtain ⟨_, _, _, _, _, _, rfl, rfl, _, rfl⟩ := mem_conjunctionIntroduction.mp hc
    exact ⟨hf, hg⟩
  | proofByCases =>
    obtain ⟨a, b, a', b', rfl, rfl, _, _, rfl⟩ := mem_proofByCases.mp hc
    exact hstock.composedOf_holding hf.2
  | biconditionalIntroduction =>
    obtain ⟨a, b, a', b', rfl, rfl, _, _, _, rfl⟩ := mem_biconditionalIntroduction.mp hc
    exact ⟨hf.1, hf.2⟩
  | conditionalDisjunction | contraposition | exportation | conjunctionElimination | deMorgan
    | distribution | selfReference | biconditionalElimination => cases hrule

theorem composedOf_of_mem_one (hstock : Stock stock) {rule : Rule} {f c : Formula}
    (hrule : rule.enlarges = false) (hf : f.ComposedOf stock)
    (hc : c ∈ rule.conclude f none) : c.ComposedOf stock := by
  cases rule with
  | exportation | distribution => cases hrule
  | conditionalDisjunction =>
    rcases mem_conditionalDisjunction.mp hc with ⟨a, b, rfl, rfl⟩ | ⟨a, b, rfl, rfl | rfl⟩
    · exact ⟨hstock.negate hf.1, hf.2⟩
    · exact ⟨hstock.negate hf.1, hf.2⟩
    · exact ⟨hstock.negate hf.2, hf.1⟩
  | contraposition =>
    obtain ⟨a, b, rfl, rfl⟩ := mem_contraposition.mp hc
    exact ⟨hstock.negate hf.2, hstock.negate hf.1⟩
  | conjunctionElimination =>
    obtain ⟨a, b, rfl, rfl | rfl⟩ := mem_conjunctionElimination.mp hc
    · exact hstock.composedOf_holding hf.1
    · exact hstock.composedOf_holding hf.2
  | deMorgan =>
    obtain ⟨negated, a, b, ⟨rfl, rfl⟩ | ⟨rfl, rfl⟩⟩ := mem_deMorgan.mp hc
    · exact ⟨hstock.negate hf.1, hstock.negate hf.2⟩
    · exact ⟨hstock.negate hf.1, hstock.negate hf.2⟩
  | selfReference =>
    obtain ⟨a, b, rfl, _, rfl⟩ := mem_selfReference.mp hc
    exact hstock.composedOf_holding hf.1
  | biconditionalElimination =>
    obtain ⟨a, b, rfl, rfl | rfl⟩ := mem_biconditionalElimination.mp hc
    · exact hf
    · exact ⟨hf.2, hf.1⟩
  | modusPonens | modusTollens | hypotheticalSyllogism | conjunctionIntroduction | proofByCases
    | biconditionalIntroduction => cases hc

/-- A conclusion by one of the twelve rules has its operands from the stock, if the premises have
theirs. -/
theorem composedOf_of_drawnFrom (hstock : Stock stock) {known : Nat → Formula → Prop} {m : Match}
    (hrule : m.rule.enlarges = false) (h : m.DrawnFrom known)
    (hknown : ∀ i ∈ m.parents, ∀ p, known i p → p.ComposedOf stock) :
    m.formula.ComposedOf stock := by
  cases h with
  | one hp hc =>
    exact hstock.composedOf_of_mem_one hrule (hknown _ (by simp) _ hp) (Rule.mem_apply.mp hc).2
  | two hp hq _ hc =>
    exact hstock.composedOf_of_mem_two (Rule.arity_of_mem_apply_some hc)
      (hknown _ (by simp) _ hp) (hknown _ (by simp) _ hq) (Rule.mem_apply.mp hc).2

end Stock

/-! ## Finite stocks -/

namespace Formula

/-- The subformulas, each with its negation. -/
def parts : Formula → List Formula
  | .atom name negated truth => [.atom name negated truth, .atom name (!negated) truth]
  | .compound op negated l r =>
    .compound op negated l r :: .compound op (!negated) l r :: (l.parts ++ r.parts)

theorem mem_parts_self (f : Formula) : f ∈ f.parts := by
  cases f <;> exact List.mem_cons_self

theorem negate_mem_parts {f p : Formula} (hp : p ∈ f.parts) : p.negate ∈ f.parts := by
  induction f with
  | atom name negated truth =>
    simp only [parts, List.mem_cons, List.not_mem_nil, or_false] at hp ⊢
    rcases hp with rfl | rfl <;> simp [negate]
  | compound op negated l r ihl ihr =>
    simp only [parts, List.mem_cons, List.mem_append] at hp ⊢
    rcases hp with rfl | rfl | hp | hp
    · exact Or.inr (Or.inl rfl)
    · exact Or.inl (by simp [negate])
    · exact Or.inr (Or.inr (Or.inl (ihl hp)))
    · exact Or.inr (Or.inr (Or.inr (ihr hp)))

theorem operands_mem_parts {f l r : Formula} {op : Connective} {negated : Bool}
    (hp : compound op negated l r ∈ f.parts) : l ∈ f.parts ∧ r ∈ f.parts := by
  induction f with
  | atom name negated truth => simp [parts] at hp
  | compound op' negated' l' r' ihl ihr =>
    simp only [parts, List.mem_cons, List.mem_append] at hp ⊢
    rcases hp with heq | heq | hp | hp
    · cases heq
      exact ⟨by simp [mem_parts_self], by simp [mem_parts_self]⟩
    · cases heq
      exact ⟨by simp [mem_parts_self], by simp [mem_parts_self]⟩
    · simp [ihl hp]
    · simp [ihr hp]

/-- Like a part of one of the formulas. -/
def IsPartOf (formulas : List Formula) (f : Formula) : Prop :=
  ∃ p ∈ formulas.flatMap parts, f.alike p = true

theorem stock_isPartOf (formulas : List Formula) : Stock (IsPartOf formulas) where
  negate := by
    rintro f ⟨p, hp, hlike⟩
    obtain ⟨g, hg, hp⟩ := List.mem_flatMap.mp hp
    exact ⟨p.negate, List.mem_flatMap.mpr ⟨g, hg, negate_mem_parts hp⟩, alike_negate hlike⟩
  holding := by
    rintro f ⟨p, hp, hlike⟩
    exact ⟨p, hp, alike_trans (holding_alike f) hlike⟩
  operands := by
    rintro op negated l r ⟨p, hp, hlike⟩
    obtain ⟨g, hg, hp⟩ := List.mem_flatMap.mp hp
    obtain ⟨l', r', rfl, hpairs⟩ := alike_compound_iff.mp hlike
    obtain ⟨hl', hr'⟩ := operands_mem_parts hp
    have hl' := List.mem_flatMap.mpr ⟨g, hg, hl'⟩
    have hr' := List.mem_flatMap.mpr ⟨g, hg, hr'⟩
    rcases hpairs with ⟨hl, hr⟩ | ⟨_, hl, hr⟩
    · exact ⟨⟨l', hl', hl⟩, ⟨r', hr', hr⟩⟩
    · exact ⟨⟨r', hr', hl⟩, ⟨l', hl', hr⟩⟩

/-- All formulas with operands from a list, and the list. -/
def compositions (operands : List Formula) : List Formula :=
  operands ++ [Connective.and, .or, .implies, .iff].flatMap fun op =>
    [false, true].flatMap fun negated =>
      operands.flatMap fun l => operands.map fun r => .compound op negated l r

theorem compound_mem_compositions {operands : List Formula} {l r : Formula} (hl : l ∈ operands)
    (hr : r ∈ operands) (op : Connective) (negated : Bool) :
    .compound op negated l r ∈ compositions operands := by
  refine List.mem_append_right _ ?_
  simp only [List.mem_flatMap, List.mem_map]
  exact ⟨op, by cases op <;> simp, negated, by cases negated <;> simp, l, hl, r, hr, rfl⟩

theorem exists_mem_compositions {formulas : List Formula} {f : Formula}
    (h : f.ComposedOf (IsPartOf formulas)) :
    ∃ g ∈ compositions (formulas.flatMap parts), f.alike g = true := by
  cases f with
  | atom =>
    obtain ⟨p, hp, hlike⟩ := h
    exact ⟨p, List.mem_append_left _ hp, hlike⟩
  | compound op negated l r =>
    obtain ⟨⟨l', hl', hl⟩, r', hr', hr⟩ := h
    exact ⟨_, compound_mem_compositions hl' hr' op negated, alike_compound hl hr⟩

end Formula

/-- Facts that do not share an entry are like different formulas. -/
theorem FactBase.Distinct.size_le_length {b : FactBase} (hb : b.Distinct)
    {formulas : List Formula}
    (h : ∀ {id fact}, b.get? id = some fact → ∃ f ∈ formulas, fact.formula.alike f = true) :
    b.size ≤ formulas.length := by
  have hlisted : ∀ i : Fin b.size, ∃ j : Fin formulas.length, ∃ p, b.get? i = some p ∧
      p.formula.alike (formulas.get j) = true := by
    intro i
    obtain ⟨p, hp⟩ := exists_get?_of_lt i.isLt
    obtain ⟨f, hf, hlike⟩ := h hp
    obtain ⟨j, rfl⟩ := List.get_of_mem hf
    exact ⟨j, p, hp, hlike⟩
  choose place p hp hlike using hlisted
  have hinjective : Function.Injective place := by
    intro i j hij
    refine Fin.ext (hb (hp i) (hp j) (sameEntry_of_alike ?_))
    exact alike_trans (hlike i) (hij ▸ alike_symm (hlike j))
  simpa using Fintype.card_le_of_injective place hinjective

/-! ## Facts by the two rules -/

/-- Inferred by Exportation or Distribution. -/
def Fact.isEnlarged (fact : Fact) : Bool :=
  match fact.origin with
  | .inference rule _ => rule.enlarges
  | .hypothesis | .assumption => false

namespace FactBase

/-- The number of facts inferred by Exportation or Distribution. -/
def enlarged (b : FactBase) : Nat := b.entries.toList.countP fun e => e.fact.isEnlarged

variable {b c : FactBase}

theorem Begins.getElem?_more {more : List Entry} (hc : c.entries.toList = b.entries.toList ++ more)
    {id : FactId} {fact : Fact} (hid : b.size ≤ id) (hget : c.get? id = some fact) :
    ∃ e ∈ more, e.fact = fact := by
  obtain ⟨e, he, rfl⟩ := Option.map_eq_some_iff.mp hget
  rw [← Array.getElem?_toList, hc, List.getElem?_append_right hid] at he
  exact ⟨e, List.mem_of_getElem? he, rfl⟩

theorem Begins.isGiven_eq_false (h : b.Begins c) {id : FactId} {fact : Fact} (hid : b.size ≤ id)
    (hget : c.get? id = some fact) : fact.isGiven = false := by
  obtain ⟨more, hc, hmore⟩ := h
  obtain ⟨e, he, rfl⟩ := getElem?_more hc hid hget
  exact hmore e he

/-- If there are no more such facts in a continued store, then none of those behind is one. -/
theorem Begins.isEnlarged_eq_false (h : b.Begins c) (hle : c.enlarged ≤ b.enlarged) {id : FactId}
    {fact : Fact} (hid : b.size ≤ id) (hget : c.get? id = some fact) : fact.isEnlarged = false := by
  obtain ⟨more, hc, _⟩ := h
  rw [enlarged, enlarged, hc, List.countP_append] at hle
  have hnone : more.countP (fun e => e.fact.isEnlarged) = 0 := by omega
  obtain ⟨e, he, rfl⟩ := getElem?_more hc hid hget
  exact (Bool.not_eq_true _).mp (List.countP_eq_zero.mp hnone e he)

/-- By induction on numbers: what does not come by one of the two rules has its operands from where
its premises have them. -/
theorem Grounded.composedOf (hb : b.Grounded) {stock : Formula → Prop} (hstock : Stock stock)
    (h : ∀ {id fact}, b.get? id = some fact →
      fact.formula.ComposedOf stock ∨ fact.isGiven = false ∧ fact.isEnlarged = false)
    (id : FactId) :
    ∀ {fact}, b.get? id = some fact → fact.formula.ComposedOf stock := by
  induction id using Nat.strong_induction_on with
  | _ id ih =>
    intro fact hget
    rcases h hget with hcomposed | ⟨hgiven, hrule⟩
    · exact hcomposed
    · cases hb hget with
      | hypothesis | assumption => cases hgiven
      | inference hm =>
        refine hstock.composedOf_of_drawnFrom hrule hm ?_
        rintro i _ p ⟨hlt, fact, hfact, rfl⟩
        exact ih i hlt hfact

theorem size_addMatches_le (maxFacts : Nat) (b : FactBase) (matched : List Match) :
    (b.addMatches maxFacts matched).value.1.size ≤ b.size + matched.length := by
  rw [value_addMatches]
  have from_any : ∀ acc : FactBase × Nat,
      (matched.foldl (addOne maxFacts) acc).1.size ≤ acc.1.size + matched.length := by
    induction matched with
    | nil => exact fun acc => Nat.le_refl _
    | cons m matched ih =>
      intro acc
      have hone : (addOne maxFacts acc m).1.size ≤ acc.1.size + 1 := by
        rcases addOne_cases maxFacts acc m with h | ⟨hc, h⟩
        · rw [h]
          exact Nat.le_succ _
        · have hpush : (acc.1.push m.toFact).value = _ := value_push_of_not_contains hc
          rw [h, hpush, size_append]
      have hrest := ih (addOne maxFacts acc m)
      rw [List.foldl_cons, List.length_cons]
      omega
  exact from_any (b, 0)

/-- So there is a bound for all stores that continue a store and have no more facts by the two
rules. -/
theorem exists_size_le (b : FactBase) :
    ∃ bound, ∀ c : FactBase, b.Begins c → c.Distinct → c.Grounded → c.enlarged ≤ b.enlarged →
      c.size ≤ bound := by
  let formulas := b.entries.toList.map fun e => e.fact.formula
  refine ⟨(compositions (formulas.flatMap parts)).length, fun c hbegins hc hgrounded hle => ?_⟩
  have hcomposed := hgrounded.composedOf (stock_isPartOf formulas) fun {id fact} hget => by
    rcases Nat.lt_or_ge id b.size with hid | hid
    · rw [hbegins.get?_eq hid] at hget
      obtain ⟨e, he, rfl⟩ := Option.map_eq_some_iff.mp hget
      have hmem : e.fact.formula ∈ formulas :=
        List.mem_map.mpr ⟨e, List.mem_of_getElem? (by rwa [Array.getElem?_toList]), rfl⟩
      refine Or.inl ((stock_isPartOf formulas).composedOf ⟨e.fact.formula, ?_, alike_refl _⟩)
      exact List.mem_flatMap.mpr ⟨_, hmem, mem_parts_self _⟩
    · exact Or.inr ⟨hbegins.isGiven_eq_false hid hget, hbegins.isEnlarged_eq_false hle hid hget⟩
  exact hc.size_le_length fun hget => exists_mem_compositions (hcomposed _ hget)

end FactBase

/-! ## Hypotheses without inner conjunctions and disjunctions -/

namespace Formula

/-- Without conjunctions and disjunctions. -/
def IsPlain : Formula → Prop
  | .atom .. => True
  | .compound op _ l r => op.commutes = false ∧ l.IsPlain ∧ r.IsPlain

/-- At most the outermost connective is a conjunction or disjunction. -/
def IsFlat (f : Formula) : Prop := f.ComposedOf IsPlain

instance decidableIsPlain : (f : Formula) → Decidable f.IsPlain
  | .atom .. => .isTrue trivial
  | .compound op _ l r =>
    have := decidableIsPlain l
    have := decidableIsPlain r
    inferInstanceAs (Decidable (op.commutes = false ∧ l.IsPlain ∧ r.IsPlain))

instance decidableIsFlat : (f : Formula) → Decidable f.IsFlat
  | .atom .. => .isTrue trivial
  | .compound _ _ l r => inferInstanceAs (Decidable (l.IsPlain ∧ r.IsPlain))

theorem stock_isPlain : Stock IsPlain where
  negate {f} h := by cases f <;> exact h
  holding {f} h := by cases f <;> exact h
  operands h := h.2

end Formula

/-- The two rules need an inner conjunction or disjunction. -/
theorem Rule.enlarges_eq_false_of_mem_apply {rule : Rule} {f c : Formula} {g? : Option Formula}
    (hf : f.IsFlat) (hc : c ∈ rule.apply f g?) : rule.enlarges = false := by
  have hc := (mem_apply.mp hc).2
  cases rule with
  | exportation =>
    obtain ⟨a, b, d, rfl, _⟩ := mem_exportation.mp hc
    cases hf.1.1
  | distribution =>
    rcases mem_distribution.mp hc with ⟨a, b, rfl, hc | hc⟩ | ⟨a, b, rfl, hc⟩
    · obtain ⟨_, _, rfl, _⟩ := mem_distributeLeft.mp hc
      cases hf.1.1
    · obtain ⟨_, _, rfl, _⟩ := mem_distributeRight.mp hc
      cases hf.2.1
    · obtain ⟨_, _, _, _, rfl | rfl, _⟩ := mem_factor hc
      · cases hf.1.1
      · cases hf.1.1
  | _ => rfl

/-- By induction on numbers: from flat hypotheses only flat formulas are inferred, and none of them
by the two rules. -/
theorem FactBase.Grounded.isFlat {b : FactBase} (hb : b.Grounded)
    (hgiven : ∀ {id fact}, b.get? id = some fact → fact.isGiven = true → fact.formula.IsFlat)
    (id : FactId) :
    ∀ {fact}, b.get? id = some fact → fact.formula.IsFlat ∧ fact.isEnlarged = false := by
  induction id using Nat.strong_induction_on with
  | _ id ih =>
    intro fact hget
    cases hb hget with
    | hypothesis f => exact ⟨hgiven hget rfl, rfl⟩
    | assumption f => exact ⟨hgiven hget rfl, rfl⟩
    | @inference m hm =>
      have hknown : ∀ i p, b.Before id i p → p.IsFlat := by
        rintro i p ⟨hlt, fact, hfact, rfl⟩
        exact (ih i hlt hfact).1
      have hrule : m.rule.enlarges = false := by
        cases hm with
        | one hp hc => exact Rule.enlarges_eq_false_of_mem_apply (hknown _ _ hp) hc
        | two hp _ _ hc => exact Rule.enlarges_eq_false_of_mem_apply (hknown _ _ hp) hc
      exact ⟨stock_isPlain.composedOf_of_drawnFrom hrule hm fun i _ => hknown i, hrule⟩

namespace Session

/-! ## Searches with different bounds -/

variable {s t : Session}

/-- A search makes no more passes than it adds facts, but for a last pass that closes it. -/
theorem SaturatesTo.size_of_limit {goal : Formula} {limit : Limit}
    (h : SaturatesTo goal s t (.limitExceeded limit)) :
    s.config.maxFacts < t.base.size ∨
      s.config.maxPasses + s.base.size ≤ s.tally.passes + t.base.size := by
  generalize hending : Ending.limitExceeded limit = ending at h
  induction h with
  | found | closed => cases hending
  | full _ hsize => exact Or.inl hsize
  | spent _ _ hpasses => exact Or.inr (Nat.add_le_add_right hpasses _)
  | @again s t ending _ _ _ hupdated _ ih =>
    rw [pass_updated, decide_eq_true_eq] at hupdated
    have ih := ih hending
    rw [size_pass] at ih
    simp only [pass_config, pass_tally, Tally.add, pass_passes] at ih
    omega

theorem size_pass_le (s : Session) :
    s.pass.value.1.base.size ≤ s.base.size + s.found.length := by
  rw [pass_base]
  exact FactBase.size_addMatches_le _ _ _

/-- If a search ends, the searches with higher bounds end with stores of bounded size. -/
theorem SaturatesTo.exists_size_le {goal : Formula} {s' : Session} {ending : Ending}
    (h : SaturatesTo goal s s' ending) (hopen : ending.limit? = none) (hs : s.base.Distinct) :
    ∃ bound, ∀ {t t' : Session} {ending' : Ending}, SaturatesTo goal t t' ending' → s.Widens t →
      t'.base.size ≤ bound := by
  induction h with
  | @found s id hfind =>
    refine ⟨s.base.size, fun {t t' ending'} h' hw => ?_⟩
    rw [← hw.base] at hfind ⊢
    obtain ⟨rfl, _⟩ := (SaturatesTo.found hfind).unique h'
    exact Nat.le_refl _
  | full | spent => cases hopen
  | @closed s hfind hsize hpasses hupdated =>
    refine ⟨s.pass.value.1.base.size, fun {t t' ending'} h' hw => ?_⟩
    obtain ⟨_, _, hclosed⟩ := (SaturatesTo.closed hfind hsize hpasses hupdated).widen h' hw hs
    rw [(hclosed rfl).base]
  | @again s s' ending hfind hsize hpasses hupdated hrest ih =>
    obtain ⟨bound, hbound⟩ := ih hopen (by rw [pass_base]; exact hs.addMatches _ _)
    refine ⟨max bound (s.base.size + s.found.length), fun {t t' ending'} h' hw => ?_⟩
    have hlast : t.pass.value.1.base.size ≤ s.base.size + s.found.length := by
      rw [← hw.found_eq, ← hw.base]
      exact size_pass_le t
    have hgoes : s.GoesOn goal := ⟨hfind, hsize, hpasses⟩
    rcases hw.pass with ⟨hpass, _⟩ | ⟨hcut, hbegins⟩
    · rcases h'.of_goesOn (hw.goesOn hgoes) with ⟨_, rfl, _⟩ | ⟨_, hrest'⟩
      · exact Nat.le_trans hlast (Nat.le_max_right _ _)
      · exact Nat.le_trans (hbound hrest' hpass) (Nat.le_max_left _ _)
    · have hsat := SaturatesTo.again hfind hsize hpasses hupdated hrest
      obtain ⟨_, _, hended⟩ := hw.of_cut hs hgoes hcut hbegins hsat h'
      rw [(hended hopen).2]
      exact Nat.le_trans hlast (Nat.le_max_right _ _)

/-! ## The searches from hypotheses -/

section FromHypotheses

variable (hypotheses : List Formula) (goal : Formula) (seminaive : Bool)

/-- The search for a goal from hypotheses, by its bounds. -/
def saturated (maxFacts maxPasses : Nat) : Session × Ending :=
  ((ofHypotheses ⟨maxFacts, maxPasses, seminaive⟩ hypotheses).value.saturate goal).value

theorem saturatesTo_saturated (maxFacts maxPasses : Nat) :
    SaturatesTo goal (ofHypotheses ⟨maxFacts, maxPasses, seminaive⟩ hypotheses).value
      (saturated hypotheses goal seminaive maxFacts maxPasses).1
      (saturated hypotheses goal seminaive maxFacts maxPasses).2 :=
  saturatesTo_saturate _ goal

theorem reachable_saturated (maxFacts maxPasses : Nat) :
    (saturated hypotheses goal seminaive maxFacts maxPasses).1.Reachable :=
  (reachable_ofHypotheses _ hypotheses).trans
    (saturatesTo_saturated hypotheses goal seminaive maxFacts maxPasses).searches.reaches

theorem begins_saturated {maxFacts maxPasses maxFacts' maxPasses' : Nat}
    (hfacts : maxFacts ≤ maxFacts') (hpasses : maxPasses ≤ maxPasses') :
    (saturated hypotheses goal seminaive maxFacts maxPasses).1.base.Begins
      (saturated hypotheses goal seminaive maxFacts' maxPasses').1.base := by
  have hwithin : Config.Within ⟨maxFacts, maxPasses, seminaive⟩
      ⟨maxFacts', maxPasses', seminaive⟩ := ⟨rfl, hfacts, hpasses⟩
  exact ((saturatesTo_saturated hypotheses goal seminaive maxFacts maxPasses).widen
    (saturatesTo_saturated hypotheses goal seminaive maxFacts' maxPasses')
    (widens_ofHypotheses hwithin hypotheses) (reachable_ofHypotheses _ hypotheses).distinct).1

theorem size_of_limit_saturated {maxFacts maxPasses : Nat} {limit : Limit}
    (h : (saturated hypotheses goal seminaive maxFacts maxPasses).2 = .limitExceeded limit) :
    maxFacts < (saturated hypotheses goal seminaive maxFacts maxPasses).1.base.size ∨
      maxPasses ≤ (saturated hypotheses goal seminaive maxFacts maxPasses).1.base.size := by
  have hsat := saturatesTo_saturated hypotheses goal seminaive maxFacts maxPasses
  rw [h] at hsat
  have hsize := hsat.size_of_limit
  rw [config_ofHypotheses, tally_ofHypotheses] at hsize
  exact hsize.imp_right fun hsize => by simp only [Tally.zero] at hsize; omega

/-- A search that ends within some bounds has only so many facts within any. -/
theorem exists_size_saturated_le {maxFacts maxPasses : Nat}
    (h : ∀ limit,
      (saturated hypotheses goal seminaive maxFacts maxPasses).2 ≠ .limitExceeded limit) :
    ∃ bound, ∀ maxFacts' maxPasses',
      (saturated hypotheses goal seminaive maxFacts' maxPasses').1.base.size ≤ bound := by
  have hsat := saturatesTo_saturated hypotheses goal seminaive maxFacts maxPasses
  have hopen : (saturated hypotheses goal seminaive maxFacts maxPasses).2.limit? = none := by
    cases hending : (saturated hypotheses goal seminaive maxFacts maxPasses).2 with
    | limitExceeded limit => exact absurd hending (h limit)
    | goalFound | closed => rfl
  obtain ⟨bound, hbound⟩ := hsat.exists_size_le hopen (reachable_ofHypotheses _ hypotheses).distinct
  refine ⟨bound, fun maxFacts' maxPasses' => ?_⟩
  -- a search with other bounds is no longer than one whose bounds are above both
  have hbegins := begins_saturated hypotheses goal seminaive
    (Nat.le_max_right maxFacts maxFacts') (Nat.le_max_right maxPasses maxPasses')
  have hwithin : Config.Within ⟨maxFacts, maxPasses, seminaive⟩
      ⟨max maxFacts maxFacts', max maxPasses maxPasses', seminaive⟩ :=
    ⟨rfl, Nat.le_max_left _ _, Nat.le_max_left _ _⟩
  exact Nat.le_trans hbegins.size_le
    (hbound (saturatesTo_saturated ..) (widens_ofHypotheses hwithin hypotheses))

/-- Among the searches with all bounds there is one with the most facts by the two rules. The
searches with higher bounds add only facts by the others, and come to an end. -/
theorem exists_closes_of_enlarged_le {bound : Nat}
    (h : ∀ maxFacts maxPasses,
      (saturated hypotheses goal seminaive maxFacts maxPasses).1.base.enlarged ≤ bound) :
    ∃ maxFacts maxPasses, ∀ limit,
      (saturated hypotheses goal seminaive maxFacts maxPasses).2 ≠ .limitExceeded limit := by
  let counts : Set Nat := {count | ∃ maxFacts maxPasses,
    (saturated hypotheses goal seminaive maxFacts maxPasses).1.base.enlarged = count}
  have hbounded : BddAbove counts := by
    refine ⟨bound, ?_⟩
    rintro _ ⟨maxFacts, maxPasses, rfl⟩
    exact h maxFacts maxPasses
  have hnonempty : counts.Nonempty := ⟨_, 0, 0, rfl⟩
  obtain ⟨maxFacts, maxPasses, hmost⟩ := Nat.sSup_mem hnonempty hbounded
  obtain ⟨size, hsize⟩ := FactBase.exists_size_le
    (saturated hypotheses goal seminaive maxFacts maxPasses).1.base
  refine ⟨max maxFacts (size + 1), max maxPasses (size + 1), fun limit hlimit => ?_⟩
  have hreachable := reachable_saturated hypotheses goal seminaive
    (max maxFacts (size + 1)) (max maxPasses (size + 1))
  have hbegins := begins_saturated hypotheses goal seminaive
    (Nat.le_max_left maxFacts (size + 1)) (Nat.le_max_left maxPasses (size + 1))
  have hle := hsize _ hbegins hreachable.distinct hreachable.grounded
    (hmost ▸ le_csSup hbounded ⟨_, _, rfl⟩)
  have hstopped := size_of_limit_saturated hypotheses goal seminaive hlimit
  omega

theorem enlarged_saturated_of_isFlat (h : ∀ f ∈ hypotheses, f.IsFlat) (maxFacts maxPasses : Nat) :
    (saturated hypotheses goal seminaive maxFacts maxPasses).1.base.enlarged = 0 := by
  have hsat := saturatesTo_saturated hypotheses goal seminaive maxFacts maxPasses
  have hflat := (reachable_saturated hypotheses goal seminaive maxFacts maxPasses).grounded.isFlat
    fun hget hgiven => by
      obtain ⟨f, hf, rfl⟩ := get?_ofHypotheses (hsat.searches.get?_of_isGiven hget hgiven)
      have hf := h f hf
      cases f <;> exact hf
  refine List.countP_eq_zero.mpr fun e he => Bool.eq_false_iff.mp ?_
  obtain ⟨id, hid⟩ := List.mem_iff_getElem?.mp he
  rw [Array.getElem?_toList] at hid
  exact (hflat id (congrArg (Option.map Entry.fact) hid)).2

end FromHypotheses

/-- There are bounds within which a search ends just if the facts that come by Exportation and
Distribution are limited in number, however large the bounds. Hence there are such bounds if the
hypotheses have no conjunctions and disjunctions but outermost ones. -/
theorem saturate_closes_iff (hypotheses : List Formula) (goal : Formula) (seminaive : Bool) :
    ((∃ maxFacts maxPasses, ∀ limit,
        (saturated hypotheses goal seminaive maxFacts maxPasses).2 ≠ .limitExceeded limit) ↔
      ∃ bound, ∀ maxFacts maxPasses,
        (saturated hypotheses goal seminaive maxFacts maxPasses).1.base.enlarged ≤ bound) ∧
    ((∀ h ∈ hypotheses, h.IsFlat) → ∃ maxFacts maxPasses, ∀ limit,
        (saturated hypotheses goal seminaive maxFacts maxPasses).2 ≠ .limitExceeded limit) := by
  refine ⟨⟨?_, ?_⟩, fun hflat => ?_⟩
  · rintro ⟨maxFacts, maxPasses, hopen⟩
    obtain ⟨bound, hbound⟩ := exists_size_saturated_le hypotheses goal seminaive hopen
    refine ⟨bound, fun maxFacts' maxPasses' => Nat.le_trans ?_ (hbound maxFacts' maxPasses')⟩
    exact List.countP_le_length
  · rintro ⟨bound, hbound⟩
    exact exists_closes_of_enlarged_le hypotheses goal seminaive hbound
  · exact exists_closes_of_enlarged_le hypotheses goal seminaive fun maxFacts maxPasses =>
      (enlarged_saturated_of_isFlat hypotheses goal seminaive hflat maxFacts maxPasses).le

/-- Outermost connectives of all kinds, and implications and equivalences inside. -/
theorem saturate_closes_flat :
    let hypotheses : List Formula :=
      [.imp (.var "A") (.imp (.var "B") (.var "C")),
        .disj (.var "A") (.equiv (.var "B") (.var "C")),
        .compound .and true (.var "C") (.imp (.var "A") (.var "B"))]
    (∀ h ∈ hypotheses, h.IsFlat) ∧ ∃ maxFacts maxPasses, ∀ limit,
      (saturated hypotheses (.var "Z") true maxFacts maxPasses).2 ≠ .limitExceeded limit := by
  intro hypotheses
  have hflat : ∀ h ∈ hypotheses, h.IsFlat := by decide
  exact ⟨hflat, (saturate_closes_iff hypotheses (.var "Z") true).2 hflat⟩

/-! ## A search that never closes -/

/-- `B → (B → … → A)`. -/
def nested : Nat → Formula
  | 0 => .var "A"
  | n + 1 => .imp (.var "B") (nested n)

/-- Exportation puts `B` before the consequent, and the Hypothetical Syllogism puts `A ∧ B` back in
the place of `A`. -/
theorem derives_nested (n : Nat) :
    Derives (· = .imp (.conj (.var "A") (.var "B")) (.var "A"))
      (.imp (.conj (.var "A") (.var "B")) (nested n)) := by
  have hpremise : Derives (· = .imp (.conj (.var "A") (.var "B")) (.var "A"))
      (.imp (.conj (.var "A") (.var "B")) (.var "A")) := Derives.premise (f := imp _ _) rfl
  induction n with
  | zero => exact hpremise
  | succ n ih =>
    have hexported : .imp (.var "A") (nested (n + 1)) ∈
        Rule.exportation.apply (.imp (.conj (.var "A") (.var "B")) (nested n)) none :=
      Rule.mem_apply.mpr ⟨rfl, mem_exportation.mpr ⟨_, _, _, rfl, Or.inl rfl⟩⟩
    have hchained : .imp (.conj (.var "A") (.var "B")) (nested (n + 1)) ∈
        Rule.hypotheticalSyllogism.apply (.imp (.conj (.var "A") (.var "B")) (.var "A"))
          (some (.imp (.var "A") (nested (n + 1)))) :=
      Rule.mem_apply.mpr ⟨rfl, mem_hypotheticalSyllogism.mpr
        ⟨false, .conj (.var "A") (.var "B"), .var "A", .var "A", nested (n + 1), rfl, rfl,
          alike_refl _, rfl, rfl⟩⟩
    exact .two hpremise (.one ih hexported) rfl (fun hdetaches => by cases hdetaches) hchained

theorem le_depth_nested (n : Nat) : n ≤ (nested n).depth := by
  induction n with
  | zero => exact Nat.zero_le _
  | succ n ih =>
    simp only [nested, imp, depth]
    omega

theorem exists_depth_le (b : FactBase) :
    ∃ bound, ∀ {id fact}, b.get? id = some fact → fact.formula.depth ≤ bound := by
  let depthAt : FactId → Nat := fun id => ((b.get? id).map fun fact => fact.formula.depth).getD 0
  refine ⟨(Finset.range b.size).sup depthAt, fun {id fact} hget => ?_⟩
  have hle := Finset.le_sup (f := depthAt) (Finset.mem_range.mpr (FactBase.lt_size_of_get? hget))
  simpa only [depthAt, hget, Option.map_some, Option.getD_some] using hle

/-- A search for `Z` from `(A ∧ B) → A` is stopped by its bounds, whatever they are: it does not
find `Z`, and it closes with no finite number of facts. -/
theorem not_saturate_closes :
    let hypotheses : List Formula := [.imp (.conj (.var "A") (.var "B")) (.var "A")]
    ¬ ∃ maxFacts maxPasses seminaive, ∀ limit,
      (saturated hypotheses (.var "Z") seminaive maxFacts maxPasses).2 ≠ .limitExceeded limit := by
  rintro hypotheses ⟨maxFacts, maxPasses, seminaive, hopen⟩
  let v : Valuation := fun name => name != "Z"
  have htrue : ∀ h ∈ hypotheses, h.eval v = true := by decide
  have hconsistent := consistent_ofHypotheses ⟨maxFacts, maxPasses, seminaive⟩ htrue
  have hsat := saturatesTo_saturated hypotheses (.var "Z") seminaive maxFacts maxPasses
  cases hending : (saturated hypotheses (.var "Z") seminaive maxFacts maxPasses).2 with
  | limitExceeded limit => exact hopen limit hending
  | goalFound id =>
    rw [hending] at hsat
    obtain ⟨fact, hget, _, hlike⟩ := FactBase.find?_eq_some hsat.find?_of_goalFound
    have hfact := (hsat.searches.consistent hconsistent).eval hget
    rw [eval_eq_of_alike v hlike] at hfact
    cases hfact
  | closed =>
    rw [hending] at hsat
    have hsettled := hsat.settled hconsistent (drained_ofHypotheses _ hypotheses)
    obtain ⟨bound, hbound⟩ :=
      exists_depth_le (saturated hypotheses (.var "Z") seminaive maxFacts maxPasses).1.base
    have hderives := derives_nested (bound + 1)
    have hpremise : ∀ g : Formula, g = .imp (.conj (.var "A") (.var "B")) (.var "A") →
        g.eval v = true := fun g hg => htrue g (List.mem_singleton.mpr hg)
    have hheld := hsettled.contains_of_derives hpremise (fun g hg => hsat.adds.contains
      (contains_ofHypotheses (List.mem_singleton.mpr hg))) hderives
    obtain ⟨id, fact, hget, hlike⟩ := hsettled.exists_alike (hderives.eval hpremise) hheld
    have hdepth := hbound hget
    have hdeep := le_depth_nested (bound + 1)
    rw [← depth_eq_of_alike hlike] at hdepth
    simp only [depth] at hdepth
    omega

end Session

end Turnstile
