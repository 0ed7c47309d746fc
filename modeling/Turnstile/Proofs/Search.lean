import Turnstile.Session
import Turnstile.Proofs.Store
import Turnstile.Proofs.Inference

/-!
What a pass finds and what it adds.

* `Rule.mem_search`: a search finds exactly the conclusions that the rule draws from the given facts
  with a fresh premise among them;
* `Rule.search_eq_filter`: looking only at fresh premises finds a part of all there is, in the same
  order;
* `FactBase.get?_addMatches`, `contains_addMatches`, `size_addMatches`: what adding conclusions does
  to the store, with or without the bound being reached;
* `FactBase.addMatches_filter`: leaving out conclusions that are held already changes nothing.
-/

namespace Turnstile

/-! ## Conclusions and their premises -/

/-- The rule draws the conclusion from known formulas with the given numbers, two premises being
different ones. -/
inductive Match.DrawnFrom (known : Nat → Formula → Prop) : Match → Prop
  | one {rule : Rule} {i : Nat} {p c : Formula} (hp : known i p) (hc : c ∈ rule.apply p none) :
      DrawnFrom known ⟨rule, c, [i]⟩
  | two {rule : Rule} {i j : Nat} {p q c : Formula} (hp : known i p) (hq : known j q)
      (hne : i ≠ j) (hc : c ∈ rule.apply p (some q)) : DrawnFrom known ⟨rule, c, [i, j]⟩

theorem Match.DrawnFrom.mono {known known' : Nat → Formula → Prop} {m : Match}
    (h : m.DrawnFrom known) (hle : ∀ i ∈ m.parents, ∀ p, known i p → known' i p) :
    m.DrawnFrom known' := by
  cases h with
  | one hp hc => exact .one (hle _ (by simp) _ hp) hc
  | two hp hq hne hc => exact .two (hle _ (by simp) _ hp) (hle _ (by simp) _ hq) hne hc

theorem Match.DrawnFrom.known {known : Nat → Formula → Prop} {m : Match} (h : m.DrawnFrom known) :
    ∀ i ∈ m.parents, ∃ p, known i p := by
  intro i hi
  cases h with
  | one hp _ =>
    rw [List.mem_singleton.mp hi]
    exact ⟨_, hp⟩
  | two hp hq _ _ =>
    rcases List.mem_cons.mp hi with rfl | hi
    · exact ⟨_, hp⟩
    · rw [List.mem_singleton.mp hi]
      exact ⟨_, hq⟩

/-- A formula stands under its number in a list of facts. -/
def Lists (facts : List (FactId × Fact)) (id : FactId) (f : Formula) : Prop :=
  ∃ fact, (id, fact) ∈ facts ∧ fact.formula = f

theorem FactBase.lists_live_inj {b : FactBase} {id : FactId} {f g : Formula}
    (hf : Lists b.live id f) (hg : Lists b.live id g) : f = g := by
  obtain ⟨p, hp, rfl⟩ := hf
  obtain ⟨q, hq, rfl⟩ := hg
  have hget := (mem_live.mp hp).1
  rw [(mem_live.mp hq).1] at hget
  cases hget
  rfl

/-- The conclusion comes by its rule from live facts. -/
def FactBase.Concludes (b : FactBase) (m : Match) : Prop := m.DrawnFrom (Lists b.live)

/-! ## Searching -/

namespace Rule

theorem apply_none_of_two {rule : Rule} {first second : Formula → Bool} (f : Formula)
    (h : rule.shape = .two first second) : rule.apply f none = [] := by
  simp [apply, h, Shape.fits]

theorem apply_some_of_one {rule : Rule} {test : Formula → Bool} (f g : Formula)
    (h : rule.shape = .one test) : rule.apply f (some g) = [] := by
  simp [apply, h, Shape.fits]

theorem mem_search {rule : Rule} {facts : List (FactId × Fact)} {fresh : FactId → Bool}
    {m : Match} :
    m ∈ rule.search facts fresh ↔
      m.rule = rule ∧ m.DrawnFrom (Lists facts) ∧ m.parents.any fresh = true := by
  unfold search
  split
  · next test hshape =>
    simp only [List.mem_flatMap, List.mem_filter, Bool.and_eq_true, List.mem_map, Prod.exists]
    constructor
    · rintro ⟨id, fact, ⟨hmem, hfresh, _⟩, c, hc, rfl⟩
      exact ⟨rfl, .one ⟨fact, hmem, rfl⟩ hc, by simp [hfresh]⟩
    · rintro ⟨rfl, hdrawn, hfresh⟩
      cases hdrawn with
      | @one rule i p c hp hc =>
        obtain ⟨fact, hmem, rfl⟩ := hp
        have hfits := (mem_apply.mp hc).1
        rw [hshape] at hfits
        exact ⟨i, fact, ⟨hmem, by simpa using hfresh, hfits⟩, c, hc, rfl⟩
      | two _ _ _ hc =>
        rw [apply_some_of_one _ _ hshape] at hc
        exact absurd hc List.not_mem_nil
  · next first second hshape =>
    simp only [List.mem_flatMap, List.mem_filter, Prod.exists]
    constructor
    · rintro ⟨i, a, ⟨ha, _⟩, j, b, ⟨hb, _⟩, hm⟩
      split at hm
      · exact absurd hm List.not_mem_nil
      · next hif =>
        obtain ⟨c, hc, rfl⟩ := List.mem_map.mp hm
        simp only [Bool.or_eq_true, beq_iff_eq, Bool.not_eq_true', not_or,
          Bool.not_eq_false] at hif
        exact ⟨rfl, .two ⟨a, ha, rfl⟩ ⟨b, hb, rfl⟩ hif.1 hc, by simpa using hif.2⟩
    · rintro ⟨rfl, hdrawn, hfresh⟩
      cases hdrawn with
      | one _ hc =>
        rw [apply_none_of_two _ hshape] at hc
        exact absurd hc List.not_mem_nil
      | @two rule i j p q c hp hq hne hc =>
        obtain ⟨a, ha, rfl⟩ := hp
        obtain ⟨b, hb, rfl⟩ := hq
        have hfits := (mem_apply.mp hc).1
        rw [hshape] at hfits
        obtain ⟨hfirst, hsecond⟩ := (Bool.and_eq_true _ _).mp hfits
        refine ⟨i, a, ⟨ha, hfirst⟩, j, b, ⟨hb, hsecond⟩, ?_⟩
        have hfresh : (fresh i || fresh j) = true := by simpa using hfresh
        rw [beq_false_of_ne hne, hfresh]
        exact List.mem_map.mpr ⟨c, hc, rfl⟩

/-- All conclusions whose premises are alike in freshness are kept or dropped together. -/
private theorem filter_map_match (rule : Rule) (conclusions : List Formula) (parents : List FactId)
    (fresh : FactId → Bool) :
    (conclusions.map fun f => (⟨rule, f, parents⟩ : Match)).filter (fun m => m.parents.any fresh) =
      if parents.any fresh then conclusions.map fun f => ⟨rule, f, parents⟩ else [] := by
  induction conclusions with
  | nil => simp
  | cons c conclusions ih =>
    simp only [List.map_cons, List.filter_cons, ih]
    split <;> rfl

private theorem flatMap_filter_and {α β : Type} (p q : α → Bool) (g : α → List β) (l : List α) :
    (l.filter fun x => p x && q x).flatMap g =
      (l.filter q).flatMap fun x => if p x then g x else [] := by
  induction l with
  | nil => rfl
  | cons x l ih => cases hp : p x <;> cases hq : q x <;> simp [hp, hq, ih]

theorem search_eq_filter (rule : Rule) (facts : List (FactId × Fact)) (fresh : FactId → Bool) :
    rule.search facts fresh =
      (rule.search facts fun _ => true).filter fun m => m.parents.any fresh := by
  unfold search
  split
  · simp only [List.filter_flatMap, filter_map_match, List.any_cons, List.any_nil, Bool.or_false,
      Bool.true_and]
    exact flatMap_filter_and (fun x => fresh x.1) _ _ facts
  · simp only [List.filter_flatMap]
    refine congrArg (List.flatMap · _) (funext fun first => ?_)
    refine congrArg (List.flatMap · _) (funext fun second => ?_)
    cases hsame : first.1 == second.1 with
    | true => simp
    | false =>
      simp only [Bool.or_true, Bool.not_true, Bool.or_false, Bool.false_eq_true, if_false,
        filter_map_match, List.any_cons, List.any_nil, Bool.false_or]
      cases fresh first.1 || fresh second.1 <;> simp

end Rule

/-! ## Adding what was found -/

/-- The fact that a conclusion becomes. -/
def Match.toFact (m : Match) : Fact := .inference m.formula m.rule m.parents

namespace FactBase

/-- `addMatch` without the events. -/
def addOne (maxFacts : Nat) (acc : FactBase × Nat) (m : Match) : FactBase × Nat :=
  if acc.1.size > maxFacts then acc
  else if acc.1.contains m.formula then acc
  else ((acc.1.push m.toFact).value.1, acc.2 + 1)

theorem value_addMatch (maxFacts : Nat) (acc : Logged (FactBase × Nat)) (m : Match) :
    (addMatch maxFacts acc m).value = addOne maxFacts acc.value m := by
  unfold addMatch addOne
  split
  · rfl
  · change ((acc.value.1.push m.toFact).value.1,
      if (acc.value.1.push m.toFact).value.2.isSome then acc.value.2 + 1 else acc.value.2) = _
    cases hc : acc.value.1.contains m.formula with
    | true =>
      have hpush : (acc.value.1.push m.toFact).value = _ := value_push_of_contains hc
      rw [hpush]
      rfl
    | false =>
      have hpush : (acc.value.1.push m.toFact).value = _ := value_push_of_not_contains hc
      rw [hpush]
      rfl

theorem value_addMatches (maxFacts : Nat) (b : FactBase) (matched : List Match) :
    (b.addMatches maxFacts matched).value = matched.foldl (addOne maxFacts) (b, 0) := by
  have from_any : ∀ acc : Logged (FactBase × Nat),
      (matched.foldl (addMatch maxFacts) acc).value =
        matched.foldl (addOne maxFacts) acc.value := by
    induction matched with
    | nil => intro acc; rfl
    | cons m matched ih =>
      intro acc
      rw [List.foldl_cons, List.foldl_cons, ih, value_addMatch]
  exact from_any (pure (b, 0))

/-- A conclusion is passed over, or it is new and there is room for it. -/
theorem addOne_cases (maxFacts : Nat) (acc : FactBase × Nat) (m : Match) :
    addOne maxFacts acc m = acc ∨
      (acc.1.contains m.formula = false ∧
        addOne maxFacts acc m = ((acc.1.push m.toFact).value.1, acc.2 + 1)) := by
  unfold addOne
  split
  · exact Or.inl rfl
  · split
    · exact Or.inl rfl
    · next hc => exact Or.inr ⟨(Bool.not_eq_true _).mp hc, rfl⟩

theorem grows_addOne (maxFacts : Nat) (acc : FactBase × Nat) (m : Match) :
    acc.1.Grows (addOne maxFacts acc m).1 := by
  rcases addOne_cases maxFacts acc m with h | ⟨_, h⟩
  · rw [h]; exact Grows.refl acc.1
  · rw [h]; exact grows_push acc.1 m.toFact

theorem grows_foldl_addOne (maxFacts : Nat) (acc : FactBase × Nat) (matched : List Match) :
    acc.1.Grows (matched.foldl (addOne maxFacts) acc).1 :=
  List.foldlRecOn (motive := fun acc' : FactBase × Nat => acc.1.Grows acc'.1) matched _
    (Grows.refl acc.1) fun acc' hgrows m _ => hgrows.trans (grows_addOne maxFacts acc' m)

/-- Whatever the store has before and every addition keeps, it has in the end. -/
theorem addMatches_induction {P : FactBase → Prop} {maxFacts : Nat} {b : FactBase}
    {matched : List Match} (hb : P b)
    (hpush : ∀ c, b.Grows c → P c → ∀ m ∈ matched, P (c.push m.toFact).value.1) :
    P (b.addMatches maxFacts matched).value.1 := by
  rw [value_addMatches]
  refine (List.foldlRecOn (motive := fun acc : FactBase × Nat => b.Grows acc.1 ∧ P acc.1)
    matched _ ⟨Grows.refl b, hb⟩ ?_).2
  rintro acc ⟨hgrows, hacc⟩ m hm
  refine ⟨hgrows.trans (grows_addOne maxFacts acc m), ?_⟩
  rcases addOne_cases maxFacts acc m with h | ⟨_, h⟩
  · rw [h]; exact hacc
  · rw [h]; exact hpush acc.1 hgrows hacc m hm

theorem grows_addMatches (maxFacts : Nat) (b : FactBase) (matched : List Match) :
    b.Grows (b.addMatches maxFacts matched).value.1 := by
  rw [value_addMatches]
  exact grows_foldl_addOne maxFacts (b, 0) matched

theorem adds_addMatches (maxFacts : Nat) (b : FactBase) (matched : List Match) :
    b.Adds (b.addMatches maxFacts matched).value.1 :=
  addMatches_induction (P := b.Adds) (Adds.refl b) fun c _ hc m _ => hc.trans (adds_push c m.toFact)

theorem Distinct.addMatches {b : FactBase} (hb : b.Distinct) (maxFacts : Nat)
    (matched : List Match) : (b.addMatches maxFacts matched).value.1.Distinct :=
  addMatches_induction (P := Distinct) hb fun _ _ hc m _ => hc.push m.toFact

/-- A fact found afterwards was there before, or is one of the conclusions. -/
theorem get?_addMatches {maxFacts : Nat} {b : FactBase} {matched : List Match} {id : FactId}
    {p : Fact} (h : (b.addMatches maxFacts matched).value.1.get? id = some p) :
    b.get? id = some p ∨ (b.size ≤ id ∧ ∃ m ∈ matched, p = m.toFact) := by
  refine addMatches_induction (P := fun c => c.get? id = some p →
    b.get? id = some p ∨ (b.size ≤ id ∧ ∃ m ∈ matched, p = m.toFact)) Or.inl ?_ h
  intro c hgrows ih m hm hget
  rcases get?_push hget with hold | ⟨rfl, rfl, _⟩
  · exact ih hold
  · exact Or.inr ⟨hgrows.size_le, m, hm, rfl⟩

/-- Each fact added is counted. -/
theorem size_addMatches (maxFacts : Nat) (b : FactBase) (matched : List Match) :
    (b.addMatches maxFacts matched).value.1.size =
      b.size + (b.addMatches maxFacts matched).value.2 := by
  rw [value_addMatches]
  refine List.foldlRecOn (motive := fun acc : FactBase × Nat => acc.1.size = b.size + acc.2)
    matched _ rfl ?_
  intro acc hacc m _
  rcases addOne_cases maxFacts acc m with h | ⟨hc, h⟩
  · rw [h]; exact hacc
  · have hpush : (acc.1.push m.toFact).value = _ := value_push_of_not_contains hc
    rw [h, hpush, size_append, hacc, Nat.add_assoc]

/-- If the store does not go over its bound, every conclusion is held in the end. -/
theorem contains_addMatches {maxFacts : Nat} {b : FactBase} {matched : List Match} {m : Match}
    (hm : m ∈ matched) (hsize : (b.addMatches maxFacts matched).value.1.size ≤ maxFacts) :
    (b.addMatches maxFacts matched).value.1.contains m.formula = true := by
  rw [value_addMatches] at hsize ⊢
  obtain ⟨before, after, rfl⟩ := List.append_of_mem hm
  rw [List.foldl_append, List.foldl_cons] at hsize ⊢
  generalize before.foldl (addOne maxFacts) (b, 0) = acc at hsize ⊢
  -- once its turn has come it is held, and growth keeps it
  have hafter := grows_foldl_addOne maxFacts (addOne maxFacts acc m) after
  refine hafter.contains ?_
  have hroom : ¬ acc.1.size > maxFacts := by
    have := (grows_addOne maxFacts acc m).size_le
    have := hafter.size_le
    omega
  rw [addOne, if_neg hroom]
  split
  · next hc => exact hc
  · exact contains_push acc.1 m.toFact

/-- Conclusions that are held already may as well be left out. -/
theorem addMatches_filter {maxFacts : Nat} {b : FactBase} {matched : List Match}
    {keep : Match → Bool}
    (h : ∀ m ∈ matched, keep m = false → b.contains m.formula = true) :
    (b.addMatches maxFacts (matched.filter keep)).value =
      (b.addMatches maxFacts matched).value := by
  rw [value_addMatches, value_addMatches]
  have from_any : ∀ acc : FactBase × Nat, b.Grows acc.1 →
      (matched.filter keep).foldl (addOne maxFacts) acc =
        matched.foldl (addOne maxFacts) acc := by
    induction matched with
    | nil => intro acc _; rfl
    | cons m matched ih =>
      intro acc hgrows
      have ih := ih (fun m' hm' => h m' (List.mem_cons_of_mem m hm'))
      cases hkeep : keep m with
      | true =>
        rw [List.filter_cons_of_pos hkeep, List.foldl_cons, List.foldl_cons]
        exact ih _ (hgrows.trans (grows_addOne maxFacts acc m))
      | false =>
        have hheld := hgrows.contains (h m List.mem_cons_self hkeep)
        have hsame : addOne maxFacts acc m = acc := by simp [addOne, hheld]
        rw [List.filter_cons_of_neg (by simp [hkeep]), List.foldl_cons, hsame]
        exact ih acc hgrows
  exact from_any (b, 0) (Grows.refl b)

end FactBase

end Turnstile
