import Mathlib.Data.Fintype.Card
import Turnstile.Proofs.Congruence
import Turnstile.Proofs.Consistency
import Turnstile.Proofs.Frontier
import Turnstile.Proofs.Simulation

/-!
The order of the hypotheses does not matter, as long as they and the antecedents of the conclusion
have a common model and no store runs over its bound. Two searches then number their facts in
different ways and keep different ones of two commuted forms, but pass by pass they hold the same.

* `FactBase.Covers`: each fact has a fact like it in another store. `Covers.concludes`: so has each
  conclusion from its facts, and `Covers.size_le`: so the other store is no smaller;
* `Mirror`: two sessions that cover each other and have the same counts. `Mirror.pass`: a pass
  within the bound keeps them so, and so do pruning and assuming;
* `mirroring`: so they search in step as long as the first stays within its bound, and end with the
  same verdict;
* `solve_perm`: so do searches from the same hypotheses in any order.
-/

namespace Turnstile

open Formula

/-- What a search for the formula may have to assume, in this order. -/
def Formula.antecedents : Formula → List Formula
  | .imp a c => a :: c.antecedents
  | _ => []

/-- An outcome without its proof. -/
inductive Verdict where
  | proved
  | notDerivable
  | limitExceeded (limit : Limit)
  deriving DecidableEq, Repr

def Outcome.verdict : Outcome → Verdict
  | .proved _ => .proved
  | .notDerivable => .notDerivable
  | .limitExceeded limit => .limitExceeded limit

theorem Outcome.Rel.verdict_eq {same : Proof → Proof → Prop} {outcome outcome' : Outcome}
    (h : outcome.Rel same outcome') : outcome'.verdict = outcome.verdict := by
  cases h <;> rfl

/-! ## Stores -/

namespace FactBase

/-- For each fact of `b` there is one of `c` that is like it, and in use just if it is. -/
def Covers (b c : FactBase) : Prop :=
  ∀ ⦃id fact⦄, b.get? id = some fact → ∃ id' fact', c.get? id' = some fact' ∧
    fact.formula.alike fact'.formula = true ∧ c.isLive id' = b.isLive id

namespace Covers

variable {b c : FactBase}

theorem contains (h : b.Covers c) {f : Formula} (hf : b.contains f = true) :
    c.contains f = true := by
  obtain ⟨id, fact, hget, hsame⟩ := contains_iff.mp hf
  obtain ⟨id', fact', hget', halike, _⟩ := h hget
  exact contains_iff.mpr
    ⟨id', fact', hget', sameEntry_trans (sameEntry_of_alike (alike_symm halike)) hsame⟩

theorem exists_find? (h : b.Covers c) (hc : c.Distinct) {f : Formula} {id : FactId}
    (hfind : b.find? f = some id) : ∃ id', c.find? f = some id' := by
  obtain ⟨fact, hget, hlive, hf⟩ := find?_eq_some hfind
  obtain ⟨id', fact', hget', halike, hlive'⟩ := h hget
  exact ⟨id', hc.find?_eq_some_iff.mpr
    ⟨fact', hget', hlive'.trans hlive, alike_trans (alike_symm halike) hf⟩⟩

/-- Facts of a store without repetitions are covered by different facts. -/
theorem size_le (h : b.Covers c) (hb : b.Distinct) : b.size ≤ c.size := by
  have hcovered : ∀ i : Fin b.size, ∃ j : Fin c.size, ∃ p q, b.get? i = some p ∧
      c.get? j = some q ∧ p.formula.alike q.formula = true := by
    intro i
    obtain ⟨p, hp⟩ := exists_get?_of_lt i.isLt
    obtain ⟨j, q, hq, halike, _⟩ := h hp
    exact ⟨⟨j, lt_size_of_get? hq⟩, p, q, hp, hq, halike⟩
  choose f p q hp hq halike using hcovered
  have hinjective : Function.Injective f := by
    intro i j hij
    have hsame : q i = q j := Option.some.inj (by rw [← hq i, ← hq j, hij])
    exact Fin.ext (hb.eq_of_alike (hp i) (hp j) (halike i) (hsame ▸ halike j))
  simpa using Fintype.card_le_of_injective f hinjective

theorem push (h : b.Covers c) (h' : c.Covers b) (fact : Fact) :
    (b.push fact).value.1.Covers (c.push fact).value.1 := by
  intro id p hget
  rcases get?_push hget with hold | ⟨rfl, rfl, hnew⟩
  · obtain ⟨id', p', hget', halike, hlive⟩ := h hold
    refine ⟨id', p', (adds_push c fact).kept hget', halike, ?_⟩
    rw [(adds_push c fact).isLive_eq hget', (adds_push b fact).isLive_eq hold, hlive]
  · have hnew' : c.contains p.formula = false :=
      Bool.eq_false_iff.mpr fun hheld => Bool.eq_false_iff.mp hnew (h'.contains hheld)
    rw [value_push_of_not_contains hnew, value_push_of_not_contains hnew']
    refine ⟨c.size, p, ?_, alike_refl _, ?_⟩
    · rw [get?_append, if_pos rfl]
    · rw [isLive_append, isLive_append, if_pos rfl, if_pos rfl]

theorem prune (h : b.Covers c) : b.prune.value.1.Covers c.prune.value.1 := by
  intro id p hget
  rw [get?_prune] at hget
  obtain ⟨id', p', hget', halike, hlive⟩ := h hget
  have htrivial : p'.formula.isTrivial = p.formula.isTrivial :=
    Bool.eq_iff_iff.mpr ⟨isTrivial_of_alike (alike_symm halike), isTrivial_of_alike halike⟩
  refine ⟨id', p', (get?_prune c id').trans hget', halike, ?_⟩
  rw [isLive_prune, isLive_prune, hget, hget', hlive, Option.any_some, Option.any_some, htrivial]

theorem exists_lists (h : b.Covers c) {id : FactId} {f : Formula} (hf : Lists b.live id f) :
    ∃ id' f', Lists c.live id' f' ∧ f.alike f' = true := by
  obtain ⟨fact, hlive, rfl⟩ := hf
  obtain ⟨hget, hlive⟩ := mem_live.mp hlive
  obtain ⟨id', fact', hget', halike, hlive'⟩ := h hget
  exact ⟨id', fact'.formula, ⟨fact', mem_live.mpr ⟨hget', hlive'.trans hlive⟩, rfl⟩, halike⟩

/-- What is concluded in one store is concluded in the other, up to likeness. -/
theorem concludes (h : b.Covers c) (hb : b.Distinct) (hgrounded : b.Grounded)
    (hgrounded' : c.Grounded) {m : Match} (hm : b.Concludes m) :
    ∃ m', c.Concludes m' ∧ m.formula.alike m'.formula = true := by
  cases hm with
  | @one rule i p f hp hf =>
    obtain ⟨i', p', hp', halike⟩ := h.exists_lists hp
    obtain ⟨f', hf', hff'⟩ := Rule.exists_mem_apply_one halike hf
    exact ⟨⟨rule, f', [i']⟩, .one hp' hf', hff'⟩
  | @two rule i j p q f hp hq hne hf =>
    obtain ⟨i', p', hp', hpp'⟩ := h.exists_lists hp
    obtain ⟨j', q', hq', hqq'⟩ := h.exists_lists hq
    obtain ⟨f', hf', hff'⟩ := Rule.exists_mem_apply_two (hgrounded.holding hp)
      (hgrounded'.holding hp') (hgrounded'.holding hq') hpp' hqq' hf
    refine ⟨⟨rule, f', [i', j']⟩, .two hp' hq' (fun hij => hne ?_) hf', hff'⟩
    -- premises with one counterpart would share their entry
    subst hij
    obtain rfl := lists_live_inj hp' hq'
    obtain ⟨x, hx, rfl⟩ := hp
    obtain ⟨y, hy, rfl⟩ := hq
    exact hb.eq_of_alike (mem_live.mp hx).1 (mem_live.mp hy).1 hpp' hqq'

end Covers

end FactBase

namespace Session

/-! ## Sessions -/

/-- The two sessions hold the same facts, all true under the valuation, and have the same counts. -/
structure Mirror (v : Valuation) (s t : Session) : Prop where
  config : t.config = s.config
  passes : t.tally.passes = s.tally.passes
  factsAdded : t.tally.factsAdded = s.tally.factsAdded
  left : s.Consistent v
  right : t.Consistent v
  covers : s.base.Covers t.base
  covered : t.base.Covers s.base

namespace Mirror

variable {v : Valuation} {s t : Session}

theorem symm (h : Mirror v s t) : Mirror v t s :=
  ⟨h.config.symm, h.passes.symm, h.factsAdded.symm, h.right, h.left, h.covered, h.covers⟩

theorem size_eq (h : Mirror v s t) : t.base.size = s.base.size :=
  Nat.le_antisymm (h.covered.size_le h.right.reachable.distinct)
    (h.covers.size_le h.left.reachable.distinct)

theorem room (h : Mirror v s t) (hsize : s.base.size ≤ s.config.maxFacts) :
    t.base.size ≤ t.config.maxFacts := by
  rw [h.size_eq, h.config]
  exact hsize

theorem passes_lt_iff (h : Mirror v s t) :
    t.tally.passes < t.config.maxPasses ↔ s.tally.passes < s.config.maxPasses := by
  rw [h.passes, h.config]

theorem sameCounts (h : Mirror v s t) : s.SameCounts t :=
  ⟨by rw [h.config], by rw [h.config], h.size_eq, h.passes⟩

/-- A formula is found in both or in none, under whatever numbers. -/
theorem find?_rel (h : Mirror v s t) (f : Formula) :
    Option.Rel (fun _ _ => True) (s.base.find? f) (t.base.find? f) := by
  cases hfind : s.base.find? f with
  | some id =>
    obtain ⟨id', hid'⟩ := h.covers.exists_find? h.right.reachable.distinct hfind
    rw [hid']
    exact .some trivial
  | none =>
    cases hfind' : t.base.find? f with
    | none => exact .none
    | some id' =>
      obtain ⟨id, hid⟩ := h.covered.exists_find? h.left.reachable.distinct hfind'
      rw [hid] at hfind
      cases hfind

/-- A pass within the bound covers what the other session adds in its pass: it has concluded a
formula like it, now or before. -/
theorem covered_pass (h : Mirror v s t)
    (hroom : s.pass.value.1.base.size ≤ s.config.maxFacts)
    (hleft : s.pass.value.1.Consistent v) (hright : t.pass.value.1.Consistent v) :
    t.pass.value.1.base.Covers s.pass.value.1.base := by
  intro id q hget
  have horigin := hget
  rw [pass_base] at horigin
  rcases FactBase.get?_addMatches horigin with hold | ⟨hnew, m, hm, rfl⟩
  · obtain ⟨i, p, hi, halike, hlive⟩ := h.covered hold
    refine ⟨i, p, (adds_pass s).kept hi, halike, ?_⟩
    rw [(adds_pass s).isLive_eq hi, (adds_pass t).isLive_eq hold, hlive]
  · obtain ⟨m', hm', halike⟩ := h.covered.concludes h.right.reachable.distinct
      h.right.reachable.grounded h.left.reachable.grounded (mem_found.mp hm).1
    have hheld := FactBase.contains_of_alike halike
      (h.left.reachable.explored.contains_pass hroom hm')
    obtain ⟨i, p, hi, hp⟩ := hleft.exists_alike (hright.eval hget) hheld
    refine ⟨i, p, hi, alike_symm hp, ?_⟩
    have hlive := (adds_pass t).isLive_of_size_le hget hnew
    -- were the fact like it out of use, the other session would have had one before
    have hlive' : s.pass.value.1.base.isLive i = true := by
      refine (Bool.not_eq_false _).mp fun hdead => ?_
      obtain ⟨j, q, hj, hpq, _⟩ := h.covers ((adds_pass s).spared hi hdead).1
      have hid := hright.reachable.distinct.eq_of_alike ((adds_pass t).kept hj) hget
        (alike_symm hpq) (alike_symm hp)
      exact absurd hnew (Nat.not_le_of_lt (hid ▸ FactBase.lt_size_of_get? hj))
    rw [hlive, hlive']

theorem pass (h : Mirror v s t) (hroom : s.pass.value.1.base.size ≤ s.config.maxFacts)
    (hpasses : s.tally.passes < s.config.maxPasses) :
    Mirror v s.pass.value.1 t.pass.value.1 := by
  have hsize := Nat.le_trans (adds_pass s).size_le hroom
  have hleft : s.pass.value.1.Consistent v :=
    Searches.consistent (.single (.pass s hsize hpasses)) h.left
  have hright : t.pass.value.1.Consistent v :=
    Searches.consistent (.single (.pass t (h.room hsize) (h.passes_lt_iff.mpr hpasses))) h.right
  have hcovered := h.covered_pass hroom hleft hright
  -- so the other session's store stays within the bound as well
  have hroom' : t.pass.value.1.base.size ≤ t.config.maxFacts := by
    rw [h.config]
    exact Nat.le_trans (hcovered.size_le hright.reachable.distinct) hroom
  have hcovers := h.symm.covered_pass hroom' hright hleft
  have hadded : t.pass.value.2.factsAdded = s.pass.value.2.factsAdded := by
    have hle := hcovers.size_le hleft.reachable.distinct
    have hge := hcovered.size_le hright.reachable.distinct
    rw [size_pass, size_pass, h.size_eq] at hle hge
    omega
  exact {
    config := h.config
    passes := by simp only [pass_tally, Tally.add, pass_passes, h.passes]
    factsAdded := by simp only [pass_tally, Tally.add, hadded, h.factsAdded]
    left := hleft
    right := hright
    covers := hcovers
    covered := hcovered }

theorem prune (h : Mirror v s t) : Mirror v s.prune.value t.prune.value where
  config := h.config
  passes := h.passes
  factsAdded := h.factsAdded
  left := Searches.consistent (.single (.prune s)) h.left
  right := Searches.consistent (.single (.prune t)) h.right
  covers := h.covers.prune
  covered := h.covered.prune

theorem assume (h : Mirror v s t) {a : Formula} (ha : a.eval v = true) (g : Formula) :
    Mirror v (s.assume a g).value (t.assume a g).value where
  config := h.config
  passes := h.passes
  factsAdded := h.factsAdded
  left := h.left.assume ha g
  right := h.right.assume ha g
  covers := h.covers.push h.covered _
  covered := h.covered.push h.covers _

end Mirror

theorem covers_ofHypotheses (config : Config) {hypotheses hypotheses' : List Formula}
    {v : Valuation} (hsubset : ∀ h ∈ hypotheses, h ∈ hypotheses')
    (htrue : ∀ h ∈ hypotheses', h.eval v = true) :
    (ofHypotheses config hypotheses).value.base.Covers
      (ofHypotheses config hypotheses').value.base := by
  intro id fact hget
  obtain ⟨h, hh, rfl⟩ := get?_ofHypotheses hget
  have hh' := hsubset h hh
  obtain ⟨i, p, hi, hp⟩ := (consistent_ofHypotheses config htrue).exists_alike (htrue h hh')
    (contains_ofHypotheses hh')
  refine ⟨i, p, hi, alike_trans (holding_alike h) (alike_symm hp), ?_⟩
  rw [isLive_ofHypotheses hget, isLive_ofHypotheses hi]

/-- Searches from the same hypotheses start alike. -/
theorem mirror_ofHypotheses (config : Config) {hypotheses hypotheses' : List Formula}
    {v : Valuation} (hperm : hypotheses.Perm hypotheses')
    (htrue : ∀ h ∈ hypotheses, h.eval v = true) :
    Mirror v (ofHypotheses config hypotheses).value (ofHypotheses config hypotheses').value := by
  have htrue' : ∀ h ∈ hypotheses', h.eval v = true := fun h hh => htrue h (hperm.mem_iff.mpr hh)
  exact {
    config := by rw [config_ofHypotheses, config_ofHypotheses]
    passes := by rw [tally_ofHypotheses, tally_ofHypotheses]
    factsAdded := by rw [tally_ofHypotheses, tally_ofHypotheses]
    left := consistent_ofHypotheses config htrue
    right := consistent_ofHypotheses config htrue'
    covers := covers_ofHypotheses config (fun h hh => hperm.mem_iff.mp hh) htrue'
    covered := covers_ofHypotheses config (fun h hh => hperm.mem_iff.mpr hh) htrue }

/-! ## Searches -/

theorem Step.room_of_room {s t : Session} (h : Step s t)
    (hroom : t.base.size ≤ t.config.maxFacts) : s.base.size ≤ s.config.maxFacts := by
  rw [h.config_eq] at hroom
  exact Nat.le_trans h.grows.size_le hroom

/-- Sessions that mirror each other search in step as long as the first stays within its bound. What
is assumed on the way has to be true, so that it is new in both or in none. -/
def mirroring (v : Valuation) : Simulation where
  image := .identity
  Rel := Mirror v
  SameFact _ _ := True
  SameProof _ _ := True
  Fits s := s.base.size ≤ s.config.maxFacts
  Admits goal := ∀ a ∈ goal.antecedents, a.eval v = true
  fits_of_step := Step.room_of_room
  admits_of_imp hadmits b hb := hadmits b (List.mem_cons_of_mem _ hb)
  counts := Mirror.sameCounts
  find? := Mirror.find?_rel
  proofOf _ _ _ _ := trivial
  pass h _ hpasses hfits := h.pass hfits hpasses
  prune := Mirror.prune
  assume {_ _} h {a c} hadmits := h.assume (hadmits a List.mem_cons_self) c

/-! ## Reordered hypotheses -/

theorem config_solve (config : Config) (hypotheses : List Formula) (conclusion : Formula) :
    (solve config hypotheses conclusion).value.1.config = config :=
  (provesTo_prove conclusion _).reaches.config_eq.trans (config_ofHypotheses config hypotheses)

/-- Hypotheses in another order give the same verdict and counts, and the same facts up to likeness.
The store only grows, so that its last size is its largest. -/
theorem solve_perm (config : Config) {hypotheses hypotheses' : List Formula} (conclusion : Formula)
    (hperm : hypotheses.Perm hypotheses')
    (hmodel : ∃ v : Valuation, (∀ h ∈ hypotheses, h.eval v = true) ∧
      ∀ a ∈ conclusion.antecedents, a.eval v = true)
    (hroom : (solve config hypotheses conclusion).value.1.base.size ≤ config.maxFacts) :
    let result := (solve config hypotheses conclusion).value
    let result' := (solve config hypotheses' conclusion).value
    result'.2.verdict = result.2.verdict ∧
      result'.1.tally.passes = result.1.tally.passes ∧
      result'.1.tally.factsAdded = result.1.tally.factsAdded ∧
      result.1.base.Covers result'.1.base ∧ result'.1.base.Covers result.1.base := by
  obtain ⟨v, htrue, hantecedents⟩ := hmodel
  have hstart := mirror_ofHypotheses config hperm htrue
  have hroom : (solve config hypotheses conclusion).value.1.base.size ≤
      (solve config hypotheses conclusion).value.1.config.maxFacts := by
    rw [config_solve]
    exact hroom
  obtain ⟨hmirror, houtcome⟩ := (mirroring v).prove conclusion hantecedents hstart hroom
  exact ⟨houtcome.verdict_eq, hmirror.passes, hmirror.factsAdded, hmirror.covers, hmirror.covered⟩

/-- With `P ∨ Q` first `Q ∨ P` is passed over, and the other way round when the order is reversed.
There is room for just the ten facts of the search. -/
theorem solve_perm_commuted :
    let config : Config := ⟨10, 128, true⟩
    let hypotheses : List Formula :=
      [.disj (.var "P") (.var "Q"), .disj (.var "Q") (.var "P"), .imp (.var "P") (.var "Q")]
    let conclusion : Formula := .imp (.var "R") (.var "Q")
    let result := (solve config hypotheses conclusion).value
    let result' := (solve config hypotheses.reverse conclusion).value
    result.1.base.size = 10 ∧ result'.2.verdict = result.2.verdict ∧
      result'.1.tally.passes = result.1.tally.passes ∧
      result'.1.tally.factsAdded = result.1.tally.factsAdded ∧
      result.1.base.Covers result'.1.base ∧ result'.1.base.Covers result.1.base := by
  intro config hypotheses conclusion
  have hsize : (solve config hypotheses conclusion).value.1.base.size = 10 := by decide +kernel
  refine ⟨hsize, solve_perm config conclusion (List.reverse_perm hypotheses).symm ?_ hsize.le⟩
  exact ⟨fun _ => true, by decide, by decide⟩

end Session

end Turnstile
