import Turnstile.Proofs.Atoms

/-!
A store of facts by itself, whatever is done to it: facts of any origin are added, with any truth
stored in them, trivial implications are pruned, and truths are written into the table of atoms.

* `operateAll_induction`: what every operation keeps, a run of them keeps;
* `grows_operateAll`, `distinct_operateAll`: a store only grows, and no two facts in it share an
  entry;
* `records_operateAll`: unless the truth of an atom is written over, the table knows it exactly if a
  stored fact tells it;
* `store_invariant`: what this comes to for adding facts, for finding them, for those that were
  pruned, and for the truths that are known.
-/

namespace Turnstile

/-- One thing that is done to a store. -/
inductive Operation where
  | push (fact : Fact)
  | prune
  | setTruth (name : String) (truth : Truth)

/-- Whether the truth of the atom is written over, with no fact to tell it. -/
def Operation.overwrites (name : String) : Operation → Bool
  | .setTruth other _ => other == name
  | _ => false

namespace FactBase

def operate (b : FactBase) : Operation → FactBase
  | .push fact => (b.push fact).value.1
  | .prune => b.prune.value.1
  | .setTruth name truth => (b.setTruth name truth).value

/-- The store after one operation after another. -/
def operateAll (b : FactBase) (ops : List Operation) : FactBase := ops.foldl operate b

variable {b c : FactBase} {name : String}

/-! ## One operation -/

theorem grows_setTruth (b : FactBase) (name : String) (truth : Truth) :
    b.Grows (b.setTruth name truth).value := ⟨fun h => h, fun _ h => h⟩

theorem grows_operate (b : FactBase) (op : Operation) : b.Grows (b.operate op) := by
  cases op with
  | push fact => exact grows_push b fact
  | prune => exact grows_prune b
  | setTruth name truth => exact grows_setTruth b name truth

theorem Distinct.operate (hb : b.Distinct) (op : Operation) : (b.operate op).Distinct := by
  cases op with
  | push fact => exact hb.push fact
  | prune => exact hb.prune
  | setTruth name truth => exact fun _ _ _ _ hi hj hsame => hb hi hj hsame

theorem Records.operate (hb : b.Records name) {op : Operation} (hop : op.overwrites name = false) :
    (b.operate op).Records name := by
  cases op with
  | push fact => exact hb.push fact
  | prune => exact hb.prune
  | setTruth other truth =>
    have hne : ¬ name = other := fun h => Bool.eq_false_iff.mp hop (beq_iff_eq.mpr h.symm)
    intro known
    change (b.atoms.set other truth).value.get name = some known ↔ _
    rw [AtomTable.value_set, AtomTable.get_put, if_neg hne]
    exact hb known

/-! ## Many operations -/

theorem operateAll_append (b : FactBase) (ops more : List Operation) :
    b.operateAll (ops ++ more) = (b.operateAll ops).operateAll more :=
  List.foldl_append

/-- What each of the operations keeps, a run of them keeps. -/
theorem operateAll_induction {P : FactBase → Prop} {ops : List Operation} (hb : P b)
    (hop : ∀ c, P c → ∀ op ∈ ops, P (c.operate op)) : P (b.operateAll ops) :=
  List.foldlRecOn (motive := P) ops operate hb hop

theorem grows_operateAll (b : FactBase) (ops : List Operation) : b.Grows (b.operateAll ops) :=
  operateAll_induction (P := b.Grows) (Grows.refl b) fun c hc op _ => hc.trans (grows_operate c op)

theorem distinct_operateAll (d : Digest) (ops : List Operation) :
    ((emptyWith d).operateAll ops).Distinct :=
  operateAll_induction (P := Distinct) (distinct_emptyWith d) fun _ hc op _ => hc.operate op

theorem records_operateAll (d : Digest) {ops : List Operation}
    (hops : ∀ op ∈ ops, op.overwrites name = false) :
    ((emptyWith d).operateAll ops).Records name :=
  operateAll_induction (P := fun c => c.Records name) (records_emptyWith d name)
    fun _ hc op hop => hc.operate (hops op hop)

/-! ## Adding and finding -/

/-- A fact out of use stays so. -/
theorem Grows.isLive_eq_false (h : b.Grows c) {id : FactId} {fact : Fact}
    (hget : b.get? id = some fact) (hdead : b.isLive id = false) : c.isLive id = false := by
  refine Bool.eq_false_iff.mpr fun hlive => ?_
  rw [h.live (lt_size_of_get? hget) hlive] at hdead
  cases hdead

/-- A fact is turned away exactly if its entry is taken. -/
theorem push_eq_none_iff (b : FactBase) (fact : Fact) :
    (b.push fact).value.2 = none ↔
      ∃ id p, b.get? id = some p ∧ p.formula.sameEntry fact.formula = true := by
  rw [← contains_iff]
  cases hheld : b.contains fact.formula with
  | true => simp [value_push_of_contains hheld]
  | false => simp [value_push_of_not_contains hheld]

/-- After any operations on an empty store:
no two facts share an entry;
a fact is turned away exactly if its entry is taken, which changes nothing, and is otherwise put at
the end, with the number of facts before it;
a formula is found exactly at the live fact it is like, of which there is at most one;
whatever is done next, a fact that was pruned stays so, and no other fact comes to share its entry;
and the truth of an atom that is never written over stays as it is once it is known. -/
theorem store_invariant (d : Digest) (ops : List Operation) :
    let b := (emptyWith d).operateAll ops
    b.Distinct ∧
    (∀ fact,
      ((b.push fact).value.2 = none ↔
        ∃ id p, b.get? id = some p ∧ p.formula.sameEntry fact.formula = true) ∧
      ((b.push fact).value.2 = none → (b.push fact).value.1 = b) ∧
      (∀ id, (b.push fact).value.2 = some id →
        id = b.size ∧ (b.push fact).value.1.entries = b.entries.push ⟨fact, true⟩)) ∧
    (∀ f id, b.find? f = some id ↔
      ∃ p, b.get? id = some p ∧ b.isLive id = true ∧ p.formula.alike f = true) ∧
    (∀ f i j p q, (i, p) ∈ b.live → (j, q) ∈ b.live → p.formula.alike f = true →
      q.formula.alike f = true → i = j) ∧
    (∀ more id p, b.get? id = some p → b.isLive id = false →
      (b.operateAll more).get? id = some p ∧ (b.operateAll more).isLive id = false ∧
        ∀ j q, (b.operateAll more).get? j = some q →
          q.formula.sameEntry p.formula = true → j = id) ∧
    (∀ more name truth, (∀ op ∈ ops ++ more, op.overwrites name = false) →
      b.atoms.get name = some truth → (b.operateAll more).atoms.get name = some truth) := by
  intro b
  have hdistinct : b.Distinct := distinct_operateAll d ops
  refine ⟨hdistinct, ?_, fun f id => hdistinct.find?_eq_some_iff, ?_, ?_, ?_⟩
  · intro fact
    refine ⟨push_eq_none_iff b fact, ?_, ?_⟩
    · intro hnone
      rw [value_push_of_contains (contains_iff.mpr ((push_eq_none_iff b fact).mp hnone))]
    · intro id hsome
      obtain ⟨hnew, hid⟩ := contains_of_push_eq_some hsome
      rw [value_push_of_not_contains hnew]
      exact ⟨hid, rfl⟩
  · intro f i j p q hi hj hp hq
    exact hdistinct.eq_of_alike (mem_live.mp hi).1 (mem_live.mp hj).1 hp hq
  · intro more id p hget hdead
    have hgrows := grows_operateAll b more
    have hkept := hgrows.kept hget
    refine ⟨hkept, hgrows.isLive_eq_false hget hdead, fun j q hj hsame => ?_⟩
    have hlater := distinct_operateAll d (ops ++ more)
    rw [operateAll_append] at hlater
    exact hlater hj hkept hsame
  · intro more name truth hops hknown
    have hbefore : b.Records name :=
      records_operateAll d fun op hop => hops op (List.mem_append_left more hop)
    have hafter := records_operateAll d hops
    rw [operateAll_append] at hafter
    exact hbefore.get_of_grows hafter (grows_operateAll b more) hknown

/-- A trivial implication that was pruned is tried again, and so is an atom whose opposite is
stored. The truth of another atom is written over meanwhile. -/
theorem store_invariant_retried :
    let trivial := Formula.imp (.var "X") (.var "X")
    let ops : List Operation :=
      [.push (.hypothesis trivial), .push (.hypothesis (.conj (.var "A") (.var "B"))), .prune,
        .push (.assumption (Formula.var "A").negate), .setTruth "B" (some true)]
    let more : List Operation :=
      [.push (.inference trivial .hypotheticalSyllogism [1, 2]), .push (.hypothesis (.var "A")),
        .setTruth "B" (some false)]
    let b := (emptyWith .standard).operateAll ops
    b.get? 0 = some (.hypothesis trivial) ∧ b.isLive 0 = false ∧
      (b.operateAll more).isLive 0 = false ∧
      b.atoms.get "A" = some false ∧ (b.operateAll more).atoms.get "A" = some false := by
  intro trivial ops more b
  have hget : b.get? 0 = some (.hypothesis trivial) := by decide +kernel
  have hdead : b.isLive 0 = false := by decide +kernel
  have hknown : b.atoms.get "A" = some false := by decide +kernel
  obtain ⟨_, _, _, _, hpruned, htruths⟩ := store_invariant .standard ops
  exact ⟨hget, hdead, (hpruned more 0 _ hget hdead).2.1, hknown,
    htruths more "A" false (by decide) hknown⟩

end FactBase

end Turnstile
