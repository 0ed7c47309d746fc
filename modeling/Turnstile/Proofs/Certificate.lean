import Turnstile.Proofs.Listing

/-!
A proof can be checked line by line, without the search that found it.

* `Proof.Certifies`: what there is to check;
* `Session.Backed`: the facts given to a session are the hypotheses and the assumptions it recorded;
* `ProvesTo.exists_peels`: the assumptions recorded while proving take the goal apart from the left;
* `proof_certifies`: every proof found for a problem passes the check.
-/

namespace Turnstile

/-- The conclusions of a rule from the premises in their order. -/
def Rule.applyAll (rule : Rule) : List Formula → List Formula
  | [f] => rule.apply f none
  | [f, g] => rule.apply f (some g)
  | _ => []

theorem Rule.arity_of_mem_apply_none {rule : Rule} {f c : Formula} (h : c ∈ rule.apply f none) :
    rule.arity = 1 := by
  cases hshape : rule.shape with
  | one test => rw [arity, hshape]; rfl
  | two first second =>
    rw [apply_none_of_two f hshape] at h
    cases h

theorem Rule.arity_of_mem_apply_some {rule : Rule} {f g c : Formula}
    (h : c ∈ rule.apply f (some g)) : rule.arity = 2 := by
  cases hshape : rule.shape with
  | one test =>
    rw [apply_some_of_one f g hshape] at h
    cases h
  | two first second => rw [arity, hshape]; rfl

/-- The assumptions take antecedents off the conclusion, each with the goal that is left, and end
with a goal. -/
inductive Peels : Formula → List Assumption → Formula → Prop
  | done (goal : Formula) : Peels goal [] goal
  | peel {antecedent consequent goal : Formula} {fact : Option FactId} {rest : List Assumption}
      (h : Peels consequent rest goal) :
      Peels (.imp antecedent consequent) (⟨antecedent, consequent, fact⟩ :: rest) goal

namespace Proof

/-- The formula stands on the line with the number. -/
def Says (p : Proof) (number : Nat) (f : Formula) : Prop :=
  ∃ line ∈ p.lines, line.number = number ∧ line.formula = f

/-- Everything that a reader of the proof can check. -/
structure Certifies (p : Proof) (hypotheses : List Formula) (conclusion : Formula) : Prop where
  numbered : ∀ {i line}, p.lines[i]? = some line → line.number = i + 1
  hypothesis : ∀ line ∈ p.lines, line.citation = .hypothesis →
    ∃ h ∈ hypotheses, line.formula = h.holding
  assumption : ∀ line ∈ p.lines, line.citation = .assumption →
    ∃ a ∈ p.assumptions, line.formula = a.assumed.holding
  inference : ∀ line ∈ p.lines, ∀ rule cited, line.citation = .inference rule cited →
    cited.length = rule.arity ∧ cited.Nodup ∧ (∀ number ∈ cited, number < line.number) ∧
      ∃ premises, List.Forall₂ p.Says cited premises ∧ line.formula ∈ rule.applyAll premises
  distinct : ∀ {i j : Nat} {l m : Line}, p.lines[i]? = some l → p.lines[j]? = some m → i ≠ j →
    l.formula.sameEntry m.formula = false
  concluded : ∃ goal line, Peels conclusion p.assumptions goal ∧ p.conclusion? = some line ∧
    line.formula.alike goal = true

end Proof

namespace Session

/-! ## What the given facts are -/

structure Backed (hypotheses : List Formula) (s : Session) : Prop where
  hypothesis : ∀ {id fact}, s.base.get? id = some fact → fact.origin = .hypothesis →
    ∃ h ∈ hypotheses, fact.formula = h.holding
  assumption : ∀ {id fact}, s.base.get? id = some fact → fact.origin = .assumption →
    ∃ a ∈ s.assumptions, fact.formula = a.assumed.holding

theorem backed_ofHypotheses (config : Config) (hypotheses : List Formula) :
    (ofHypotheses config hypotheses).value.Backed hypotheses where
  hypothesis hget _ := by
    obtain ⟨h, hh, rfl⟩ := get?_ofHypotheses hget
    exact ⟨h, hh, rfl⟩
  assumption hget horigin := by
    obtain ⟨h, _, rfl⟩ := get?_ofHypotheses hget
    cases horigin

theorem Searches.backed {hypotheses : List Formula} {s t : Session} (h : s.Searches t)
    (hs : s.Backed hypotheses) : t.Backed hypotheses where
  hypothesis hget horigin :=
    hs.hypothesis (h.get?_of_isGiven hget (by rw [Fact.isGiven, horigin])) horigin
  assumption hget horigin := by
    rw [h.assumptions_eq]
    exact hs.assumption (h.get?_of_isGiven hget (by rw [Fact.isGiven, horigin])) horigin

theorem Backed.assume {hypotheses : List Formula} {s : Session} (hs : s.Backed hypotheses)
    (a g : Formula) : (s.assume a g).value.Backed hypotheses where
  hypothesis hget horigin := by
    rcases FactBase.get?_push hget with hold | ⟨_, rfl, _⟩
    · exact hs.hypothesis hold horigin
    · cases horigin
  assumption hget horigin := by
    rw [assume_assumptions]
    rcases FactBase.get?_push hget with hold | ⟨_, rfl, _⟩
    · obtain ⟨x, hx, heq⟩ := hs.assumption hold horigin
      exact ⟨x, List.mem_append_left _ hx, heq⟩
    · exact ⟨_, List.mem_append_right _ List.mem_cons_self, rfl⟩

theorem ProvesTo.backed {hypotheses : List Formula} {goal : Formula} {s t : Session}
    {outcome : Outcome} (h : ProvesTo goal s t outcome) (hs : s.Backed hypotheses) :
    t.Backed hypotheses := by
  induction h with
  | found hsat _ => exact hsat.searches_prune.backed hs
  | stopped hsat _ => exact hsat.searches_prune.backed hs
  | stuck hsat _ _ _ => exact hsat.searches_prune.backed hs
  | assumed hsat _ _ _ ih => exact ih ((hsat.searches_prune.backed hs).assume _ _)

/-- A proof found is that of a fact like what is left of the goal, and the assumptions recorded on
the way are what was taken off it. -/
theorem ProvesTo.exists_peels {goal : Formula} {s t : Session} {proof : Proof}
    (h : ProvesTo goal s t (.proved proof)) :
    ∃ assumed rest id, t.assumptions = s.assumptions ++ assumed ∧ Peels goal assumed rest ∧
      t.base.find? rest = some id ∧ proof = t.proofOf id := by
  generalize houtcome : Outcome.proved proof = outcome at h
  induction h with
  | @found goal s t ending id hsat hfind =>
    cases houtcome
    refine ⟨[], goal, id, ?_, .done goal, hfind, rfl⟩
    rw [hsat.searches_prune.assumptions_eq, List.append_nil]
  | stopped => cases houtcome
  | stuck => cases houtcome
  | assumed hsat _ _ _ ih =>
    obtain ⟨assumed, rest, id, hassumptions, hpeels, hfind, hproof⟩ := ih houtcome
    rw [assume_assumptions, hsat.searches_prune.assumptions_eq, List.append_assoc] at hassumptions
    exact ⟨_, rest, id, hassumptions, .peel hpeels, hfind, hproof⟩

/-! ## The lines of a proof -/

section Lines

variable {s : Session} (hs : s.base.Grounded) (goal : FactId)

include hs

theorem ordered_listing : s.base.Ordered (s.listing goal) :=
  hs.ordered_foldl_list _

theorem getElem?_proofOf {i : Nat} {line : Line} :
    (s.proofOf goal).lines[i]? = some line ↔
      ∃ id fact, (s.listing goal)[i]? = some id ∧ s.base.get? id = some fact ∧
        line = ⟨i + 1, fact.formula, FactBase.cite (s.listing goal) fact.origin⟩ :=
  (ordered_listing hs goal).getElem?_lines

theorem mem_proofOf {line : Line} :
    line ∈ (s.proofOf goal).lines ↔
      ∃ id fact, id ∈ s.listing goal ∧ s.base.get? id = some fact ∧
        line = ⟨FactBase.lineNumber (s.listing goal) id, fact.formula,
          FactBase.cite (s.listing goal) fact.origin⟩ := by
  rw [List.mem_iff_getElem?]
  simp only [getElem?_proofOf hs]
  constructor
  · rintro ⟨i, id, fact, hi, hget, rfl⟩
    rw [← (ordered_listing hs goal).lineNumber_of_getElem? hi]
    exact ⟨id, fact, List.mem_of_getElem? hi, hget, rfl⟩
  · rintro ⟨id, fact, hid, hget, rfl⟩
    exact ⟨_, id, fact, List.getElem?_idxOf hid, hget, rfl⟩

theorem says_proofOf {id : FactId} (hid : id ∈ s.listing goal) {f : Formula}
    (hf : ∃ fact, s.base.get? id = some fact ∧ fact.formula = f) :
    (s.proofOf goal).Says (FactBase.lineNumber (s.listing goal) id) f := by
  obtain ⟨fact, hget, rfl⟩ := hf
  exact ⟨_, (mem_proofOf hs goal).mpr ⟨id, fact, hid, hget, rfl⟩, rfl, rfl⟩

/-- The fact that a proof is for has a line. -/
theorem mem_listing {fact : Fact} (hget : s.base.get? goal = some fact) :
    goal ∈ s.listing goal := by
  rw [listing, List.foldl_append, List.foldl_cons, List.foldl_nil]
  exact hs.mem_list (hs.ordered_foldl_list _) hget

/-- A conclusion cites the lines of the facts it was drawn from. -/
theorem cites_of_drawnFrom {id : FactId} (hid : id ∈ s.listing goal) {m : Match}
    (hget : s.base.get? id = some m.toFact) (hm : m.DrawnFrom (s.base.Before id)) :
    let cited := m.parents.map (FactBase.lineNumber (s.listing goal))
    cited.length = m.rule.arity ∧ cited.Nodup ∧
      (∀ number ∈ cited, number < FactBase.lineNumber (s.listing goal) id) ∧
        ∃ premises, List.Forall₂ (s.proofOf goal).Says cited premises ∧
          m.formula ∈ m.rule.applyAll premises := by
  have hparents : ∀ parent ∈ m.parents, parent ∈ s.listing goal ∧
      FactBase.lineNumber (s.listing goal) parent < FactBase.lineNumber (s.listing goal) id :=
    fun parent => (ordered_listing hs goal).lineNumber_lt hid hget
  intro cited
  have hlt : ∀ number ∈ cited, number < FactBase.lineNumber (s.listing goal) id := by
    intro number hnumber
    obtain ⟨parent, hparent, rfl⟩ := List.mem_map.mp hnumber
    exact (hparents parent hparent).2
  cases hm with
  | @one rule i p c hp hc =>
    have hi := hparents i List.mem_cons_self
    refine ⟨(Rule.arity_of_mem_apply_none hc).symm, List.nodup_singleton _, hlt, [p], ?_, hc⟩
    exact .cons (says_proofOf hs goal hi.1 hp.2) .nil
  | @two rule i j p q c hp hq hne hc =>
    have hi := hparents i List.mem_cons_self
    have hj := hparents j (List.mem_cons_of_mem i List.mem_cons_self)
    have hapart : FactBase.lineNumber (s.listing goal) i ≠ FactBase.lineNumber (s.listing goal) j :=
      fun h => hne ((List.idxOf_inj hi.1).mp (Nat.succ.inj h))
    refine ⟨(Rule.arity_of_mem_apply_some hc).symm, by simpa [cited] using hapart, hlt, [p, q],
      ?_, hc⟩
    exact .cons (says_proofOf hs goal hi.1 hp.2) (.cons (says_proofOf hs goal hj.1 hq.2) .nil)

end Lines

theorem certifies_proofOf {s : Session} {hypotheses : List Formula} {conclusion goal : Formula}
    {id : FactId} (hreachable : s.Reachable)
    (hbacked : s.Backed hypotheses) (hpeels : Peels conclusion s.assumptions goal)
    (hfind : s.base.find? goal = some id) : (s.proofOf id).Certifies hypotheses conclusion where
  numbered hi := by
    obtain ⟨_, _, _, _, rfl⟩ := (getElem?_proofOf hreachable.grounded id).mp hi
    rfl
  hypothesis line hline hcitation := by
    obtain ⟨_, fact, _, hget, rfl⟩ := (mem_proofOf hreachable.grounded id).mp hline
    exact hbacked.hypothesis hget (FactBase.origin_of_cite_eq_hypothesis hcitation)
  assumption line hline hcitation := by
    obtain ⟨_, fact, _, hget, rfl⟩ := (mem_proofOf hreachable.grounded id).mp hline
    exact hbacked.assumption hget (FactBase.origin_of_cite_eq_assumption hcitation)
  inference line hline rule cited hcitation := by
    obtain ⟨i, fact, hi, hget, rfl⟩ := (mem_proofOf hreachable.grounded id).mp hline
    cases hreachable.grounded hget with
    | hypothesis | assumption => cases hcitation
    | inference hm =>
      cases hcitation
      exact cites_of_drawnFrom hreachable.grounded id hi hget hm
  distinct hl hm hne := by
    obtain ⟨i, p, hi, hp, rfl⟩ := (getElem?_proofOf hreachable.grounded id).mp hl
    obtain ⟨j, q, hj, hq, rfl⟩ := (getElem?_proofOf hreachable.grounded id).mp hm
    refine Bool.eq_false_iff.mpr fun hsame => hne ?_
    obtain rfl := hreachable.distinct hp hq hsame
    have hnumber := (ordered_listing hreachable.grounded id).lineNumber_of_getElem? hi
    rw [(ordered_listing hreachable.grounded id).lineNumber_of_getElem? hj] at hnumber
    exact (Nat.succ.inj hnumber).symm
  concluded := by
    obtain ⟨fact, hget, _, halike⟩ := FactBase.find?_eq_some hfind
    have hline := (getElem?_proofOf hreachable.grounded id).mpr
      ⟨id, fact, List.getElem?_idxOf (mem_listing hreachable.grounded id hget), hget, rfl⟩
    exact ⟨goal, _, hpeels, hline, halike⟩

/-- Every proof found for a problem can be checked. -/
theorem proof_certifies (config : Config) (hypotheses : List Formula) (conclusion : Formula)
    {proof : Proof} (h : (solve config hypotheses conclusion).value.2 = .proved proof) :
    proof.Certifies hypotheses conclusion := by
  have hproves := provesTo_prove conclusion (ofHypotheses config hypotheses).value
  have hreachable := (reachable_ofHypotheses config hypotheses).trans hproves.reaches
  have hbacked := hproves.backed (backed_ofHypotheses config hypotheses)
  change ((ofHypotheses config hypotheses).value.prove conclusion).value.2 = _ at h
  rw [h] at hproves
  obtain ⟨assumed, goal, id, hassumptions, hpeels, hfind, rfl⟩ := hproves.exists_peels
  rw [assumptions_ofHypotheses, List.nil_append] at hassumptions
  rw [← hassumptions] at hpeels
  exact certifies_proofOf hreachable hbacked hpeels hfind

/-- From `A → B`, `A → (C → B)` is proved by assuming `A` and then `C`. -/
theorem proof_certifies_two_assumptions :
    ∃ proof, (solve .standard [.imp (.var "A") (.var "B")]
        (.imp (.var "A") (.imp (.var "C") (.var "B")))).value.2 = .proved proof ∧
      proof.Certifies [.imp (.var "A") (.var "B")]
        (.imp (.var "A") (.imp (.var "C") (.var "B"))) := by
  obtain ⟨proof, hproved⟩ : ∃ proof, (solve .standard [.imp (.var "A") (.var "B")]
      (.imp (.var "A") (.imp (.var "C") (.var "B")))).value.2 = .proved proof :=
    Outcome.isProved_iff.mp (by decide +kernel)
  exact ⟨proof, hproved, proof_certifies _ _ _ hproved⟩

end Session

end Turnstile
