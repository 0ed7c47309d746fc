import Turnstile.Proofs.Run

/-!
Where the facts of a session come from.

* `Grounded`: every fact was given, as a hypothesis or an assumption, or comes by the rule it names
  from the facts it names, all with smaller numbers. `Reachable.grounded`: it is so in every
  session, which gives an induction on numbers through its facts;
* `Searches.get?_of_isGiven`: a search adds no given facts;
* `PrunesTrivial`: only trivial implications ever go out of use;
* `get?_ofHypotheses`, `contains_ofHypotheses`: what is stored once the hypotheses are in.
-/

namespace Turnstile

/-- Given from outside, not inferred. -/
def Fact.isGiven (fact : Fact) : Bool :=
  match fact.origin with
  | .hypothesis | .assumption => true
  | .inference _ _ => false

namespace FactBase

/-- The formula stands under a number smaller than the given one. -/
def Before (b : FactBase) (id : FactId) (i : FactId) (f : Formula) : Prop :=
  i < id ∧ ∃ fact, b.get? i = some fact ∧ fact.formula = f

/-- Why a fact may stand under its number. -/
inductive Justifies (b : FactBase) (id : FactId) : Fact → Prop
  | hypothesis (f : Formula) : Justifies b id (.hypothesis f)
  | assumption (f : Formula) : Justifies b id (.assumption f)
  | inference {m : Match} (h : m.DrawnFrom (b.Before id)) : Justifies b id m.toFact

def Grounded (b : FactBase) : Prop :=
  ∀ ⦃id fact⦄, b.get? id = some fact → b.Justifies id fact

theorem Grows.before {b c : FactBase} (h : b.Grows c) {id i : FactId} {f : Formula}
    (hf : b.Before id i f) : c.Before id i f := by
  obtain ⟨hlt, fact, hget, heq⟩ := hf
  exact ⟨hlt, fact, h.kept hget, heq⟩

theorem Justifies.mono {b c : FactBase} (h : b.Grows c) {id : FactId} {fact : Fact}
    (hj : b.Justifies id fact) : c.Justifies id fact := by
  cases hj with
  | hypothesis f => exact .hypothesis f
  | assumption f => exact .assumption f
  | inference hm => exact .inference (hm.mono fun _ _ _ => h.before)

theorem Justifies.holding {b : FactBase} {id : FactId} {fact : Fact} (h : b.Justifies id fact) :
    fact.formula.holding = fact.formula := by
  cases h with
  | hypothesis f => exact Formula.holding_holding f
  | assumption f => exact Formula.holding_holding f
  | inference hm =>
    cases hm with
    | one _ hc => exact Rule.holding_of_mem_apply hc
    | two _ _ _ hc => exact Rule.holding_of_mem_apply hc

/-- A conclusion from live facts may be added at any later time. -/
theorem Concludes.justifies {b c : FactBase} {m : Match} (h : b.Concludes m) (hgrows : b.Grows c) :
    c.Justifies c.size m.toFact := by
  refine .inference (h.mono fun i _ f => ?_)
  rintro ⟨fact, hlive, heq⟩
  have hget := (mem_live.mp hlive).1
  exact ⟨Nat.lt_of_lt_of_le (lt_size_of_get? hget) hgrows.size_le, fact, hgrows.kept hget, heq⟩

namespace Grounded

theorem push {b : FactBase} (hb : b.Grounded) {fact : Fact} (hfact : b.Justifies b.size fact) :
    (b.push fact).value.1.Grounded := by
  intro id p hget
  rcases get?_push hget with hold | ⟨rfl, rfl, _⟩
  · exact (hb hold).mono (grows_push b fact)
  · exact hfact.mono (grows_push b p)

theorem addMatches {b : FactBase} (hb : b.Grounded) (maxFacts : Nat) {matched : List Match}
    (h : ∀ m ∈ matched, b.Concludes m) : (b.addMatches maxFacts matched).value.1.Grounded :=
  addMatches_induction (P := Grounded) hb fun _ hgrows hc m hm =>
    hc.push ((h m hm).justifies hgrows)

theorem holding {b : FactBase} (hb : b.Grounded) {id : FactId} {f : Formula}
    (hf : Lists b.live id f) : f.holding = f := by
  obtain ⟨fact, hlive, rfl⟩ := hf
  exact (hb (mem_live.mp hlive).1).holding

theorem prune {b : FactBase} (hb : b.Grounded) : b.prune.value.1.Grounded := by
  intro id fact hget
  rw [get?_prune] at hget
  exact (hb hget).mono (grows_prune b)

end Grounded

/-- Facts out of use are trivial implications. -/
def PrunesTrivial (b : FactBase) : Prop :=
  ∀ ⦃id fact⦄, b.get? id = some fact → b.isLive id = false → fact.formula.isTrivial = true

namespace PrunesTrivial

theorem push {b : FactBase} (hb : b.PrunesTrivial) (fact : Fact) :
    (b.push fact).value.1.PrunesTrivial := by
  intro id p hget hlive
  obtain ⟨hget, hlive⟩ := (adds_push b fact).spared hget hlive
  exact hb hget hlive

theorem prune {b : FactBase} (hb : b.PrunesTrivial) : b.prune.value.1.PrunesTrivial := by
  intro id fact hget hlive
  rw [get?_prune] at hget
  rw [isLive_prune, hget] at hlive
  cases hold : b.isLive id with
  | false => exact hb hget hold
  | true => simpa [hold] using hlive

end PrunesTrivial

end FactBase

namespace Session

/-! ## Along a run -/

theorem Step.grounded {s t : Session} (h : Step s t) (hs : s.base.Grounded) : t.base.Grounded := by
  cases h with
  | add h => exact hs.push (.hypothesis h)
  | search h =>
    cases h with
    | pass => rw [pass_base]; exact hs.addMatches _ fun m hm => (mem_found.mp hm).1
    | prune => exact hs.prune
  | assume a g => exact hs.push (.assumption a)

theorem Reachable.grounded {s : Session} (hs : s.Reachable) : s.base.Grounded := by
  refine hs.invariant (P := fun s => s.base.Grounded) (fun config id fact hget => ?_) Step.grounded
  rw [get?_start] at hget
  cases hget

theorem Step.prunesTrivial {s t : Session} (h : Step s t) (hs : s.base.PrunesTrivial) :
    t.base.PrunesTrivial := by
  cases h with
  | add h => exact hs.push _
  | search h =>
    cases h with
    | pass =>
      rw [pass_base]
      exact FactBase.addMatches_induction (P := FactBase.PrunesTrivial) hs
        fun _ _ hc m _ => hc.push m.toFact
    | prune => exact hs.prune
  | assume a g => exact hs.push _

theorem Reachable.prunesTrivial {s : Session} (hs : s.Reachable) : s.base.PrunesTrivial := by
  refine hs.invariant (P := fun s => s.base.PrunesTrivial) (fun config id fact hget => ?_)
    Step.prunesTrivial
  rw [get?_start] at hget
  cases hget

/-- What a search adds is inferred. -/
theorem SearchStep.get?_of_isGiven {s t : Session} (h : SearchStep s t) {id : FactId} {fact : Fact}
    (hget : t.base.get? id = some fact) (hgiven : fact.isGiven = true) :
    s.base.get? id = some fact := by
  cases h with
  | pass =>
    rw [pass_base] at hget
    rcases FactBase.get?_addMatches hget with hold | ⟨_, m, _, rfl⟩
    · exact hold
    · cases hgiven
  | prune => rwa [prune_base, FactBase.get?_prune] at hget

theorem Searches.get?_of_isGiven {s t : Session} (h : s.Searches t) {id : FactId} {fact : Fact}
    (hget : t.base.get? id = some fact) (hgiven : fact.isGiven = true) :
    s.base.get? id = some fact := by
  induction h with
  | refl => exact hget
  | tail _ hstep ih => exact ih (hstep.get?_of_isGiven hget hgiven)

/-! ## Hypotheses -/

theorem value_ofHypotheses (config : Config) (hypotheses : List Formula) :
    (ofHypotheses config hypotheses).value =
      hypotheses.foldl (fun s h => (s.addHypothesis h).value.1) (start config) := by
  unfold ofHypotheses
  generalize start config = s
  induction hypotheses generalizing s with
  | nil => rfl
  | cons h hypotheses ih =>
    rw [List.foldlM_cons, Logged.value_bind, ih, List.foldl_cons]
    congr 1
    simp only [Logged.value_bind]
    split <;> rfl

theorem reachable_ofHypotheses (config : Config) (hypotheses : List Formula) :
    (ofHypotheses config hypotheses).value.Reachable := by
  rw [value_ofHypotheses]
  refine List.foldlRecOn (motive := Reachable) hypotheses _ ⟨config, .refl⟩ ?_
  intro s hs h _
  exact hs.trans (.single (.add s h))

theorem get?_ofHypotheses {config : Config} {hypotheses : List Formula} {id : FactId} {fact : Fact}
    (hget : (ofHypotheses config hypotheses).value.base.get? id = some fact) :
    ∃ h ∈ hypotheses, fact = .hypothesis h := by
  rw [value_ofHypotheses] at hget
  revert hget
  refine List.foldlRecOn (motive := fun s : Session => s.base.get? id = some fact →
    ∃ h ∈ hypotheses, fact = .hypothesis h) hypotheses _ ?_ ?_
  · intro hget
    rw [get?_start] at hget
    cases hget
  · intro s ih h hh hget
    rcases FactBase.get?_push hget with hold | ⟨_, rfl, _⟩
    · exact ih hold
    · exact ⟨h, hh, rfl⟩

/-- Nothing goes out of use before a search. -/
theorem isLive_ofHypotheses {config : Config} {hypotheses : List Formula} {id : FactId}
    {fact : Fact} (hget : (ofHypotheses config hypotheses).value.base.get? id = some fact) :
    (ofHypotheses config hypotheses).value.base.isLive id = true := by
  rw [value_ofHypotheses] at hget ⊢
  revert hget
  refine List.foldlRecOn (motive := fun s : Session => s.base.get? id = some fact →
    s.base.isLive id = true) hypotheses _ ?_ ?_
  · intro hget
    rw [get?_start] at hget
    cases hget
  · intro s ih h _ hget
    refine (Bool.not_eq_false _).mp fun hlive => ?_
    obtain ⟨hget, hlive⟩ := (FactBase.adds_push s.base (.hypothesis h)).spared hget hlive
    rw [ih hget] at hlive
    cases hlive

theorem contains_ofHypotheses {config : Config} {hypotheses : List Formula} {h : Formula}
    (hh : h ∈ hypotheses) : (ofHypotheses config hypotheses).value.base.contains h = true := by
  rw [value_ofHypotheses]
  obtain ⟨before, after, rfl⟩ := List.append_of_mem hh
  rw [List.foldl_append, List.foldl_cons]
  generalize before.foldl _ _ = s
  have held : (s.addHypothesis h).value.1.base.contains h = true := by
    rw [addHypothesis_base, ← FactBase.contains_holding]
    exact FactBase.contains_push s.base (.hypothesis h)
  refine List.foldlRecOn (motive := fun t : Session => t.base.contains h = true) after _ held ?_
  intro t ht h' _
  exact (FactBase.grows_push t.base _).contains ht

theorem config_ofHypotheses (config : Config) (hypotheses : List Formula) :
    (ofHypotheses config hypotheses).value.config = config := by
  rw [value_ofHypotheses]
  exact List.foldlRecOn (motive := fun s : Session => s.config = config) hypotheses _ rfl
    fun _ hs _ _ => hs

theorem tally_ofHypotheses (config : Config) (hypotheses : List Formula) :
    (ofHypotheses config hypotheses).value.tally = .zero := by
  rw [value_ofHypotheses]
  exact List.foldlRecOn (motive := fun s : Session => s.tally = .zero) hypotheses _ rfl
    fun _ hs _ _ => hs

theorem assumptions_ofHypotheses (config : Config) (hypotheses : List Formula) :
    (ofHypotheses config hypotheses).value.assumptions = [] := by
  rw [value_ofHypotheses]
  exact List.foldlRecOn (motive := fun s : Session => s.assumptions = []) hypotheses _ rfl
    fun _ hs _ _ => hs

end Session

end Turnstile
