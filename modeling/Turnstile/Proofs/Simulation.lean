import Turnstile.Proofs.Run

/-!
Two sessions that search in step. Where one makes a pass or assumes an antecedent, so does the
other; hence what a pass, a pruning and an assumption keep between them is kept by a whole search.

* `SaturatesTo.in_step`, `prove_in_step`: the inductions, over the passes of a saturation and over
  the goals of a search. At each of them a relation is kept or it is settled how both end;
* `SameCounts`: sessions with the same bounds and the same numbers of facts and passes;
* `Simulation`: a relation between such sessions and what is to be shown of it, a step at a time.
  `Simulation.saturate`, `Simulation.attempt`, `Simulation.prove`: related sessions end related, in
  the same way, with facts and proofs that correspond.
-/

namespace Turnstile

/-- Endings of the same kind, with the same limit or with facts that correspond. -/
inductive Ending.Rel (same : FactId → FactId → Prop) : Ending → Ending → Prop
  | goalFound {id id' : FactId} (h : same id id') : Ending.Rel same (.goalFound id) (.goalFound id')
  | closed : Ending.Rel same .closed .closed
  | limitExceeded (limit : Limit) : Ending.Rel same (.limitExceeded limit) (.limitExceeded limit)

theorem Ending.Rel.eq {ending ending' : Ending} (h : ending.Rel Eq ending') : ending' = ending := by
  cases h with
  | goalFound hsame => rw [hsame]
  | closed | limitExceeded => rfl

/-- Outcomes of the same kind, with the same limit or with proofs that correspond. -/
inductive Outcome.Rel (same : Proof → Proof → Prop) : Outcome → Outcome → Prop
  | proved {p p' : Proof} (h : same p p') : Outcome.Rel same (.proved p) (.proved p')
  | notDerivable : Outcome.Rel same .notDerivable .notDerivable
  | limitExceeded (limit : Limit) : Outcome.Rel same (.limitExceeded limit) (.limitExceeded limit)

theorem Outcome.Rel.eq {outcome outcome' : Outcome} (h : outcome.Rel Eq outcome') :
    outcome' = outcome := by
  cases h with
  | proved hsame => rw [hsame]
  | notDerivable | limitExceeded => rfl

/-- A change of formulas that takes an implication to that of its sides, and nothing else to an
implication. -/
structure Translation where
  map : Formula → Formula
  map_imp : ∀ a c, map (.imp a c) = .imp (map a) (map c)
  isImp_map : ∀ f, (map f).isImp = f.isImp

def Translation.identity : Translation := ⟨id, fun _ _ => rfl, fun _ => rfl⟩

theorem Translation.identity_map (f : Formula) : identity.map f = f := rfl

namespace Session

/-! ## Passes in step -/

/-- The next thing that a search for the goal does is to make a pass. -/
structure GoesOn (goal : Formula) (s : Session) : Prop where
  find? : s.base.find? goal = none
  facts : s.base.size ≤ s.config.maxFacts
  passes : s.tally.passes < s.config.maxPasses

theorem SaturatesTo.of_goesOn {goal : Formula} {s t : Session} {ending : Ending}
    (h : SaturatesTo goal s t ending) (hs : s.GoesOn goal) :
    (s.pass.value.2.updated = false ∧ t = s.pass.value.1 ∧ ending = .closed) ∨
      (s.pass.value.2.updated = true ∧ SaturatesTo goal s.pass.value.1 t ending) := by
  cases h with
  | found hfind =>
    rw [hs.find?] at hfind
    cases hfind
  | full _ hsize => exact absurd hs.facts (Nat.not_le_of_lt hsize)
  | spent _ _ hpasses => exact absurd hs.passes (Nat.not_lt_of_le hpasses)
  | closed _ _ _ hupdated => exact Or.inl ⟨hupdated, rfl, rfl⟩
  | again _ _ _ hupdated hrest => exact Or.inr ⟨hupdated, hrest⟩

theorem SaturatesTo.reaches_of_goesOn {goal : Formula} {s t : Session} {ending : Ending}
    (h : SaturatesTo goal s t ending) (hs : s.GoesOn goal) : s.pass.value.1.Reaches t := by
  rcases h.of_goesOn hs with ⟨_, rfl, _⟩ | ⟨_, hrest⟩
  · exact .refl
  · exact hrest.searches.reaches

/-- Pass after pass, sessions that start related stay so or come to where `Q` is settled. Where one
pass adds something, so does the other, and otherwise both searches are closed. -/
theorem SaturatesTo.in_step {R : Session → Session → Prop}
    {Q : Session → Ending → Session → Ending → Prop} {goal goal' : Formula}
    (hstep : ∀ {s t}, R s t →
      (s.GoesOn goal ∧ t.GoesOn goal' ∧ R s.pass.value.1 t.pass.value.1 ∧
          t.pass.value.2.updated = s.pass.value.2.updated) ∨
        ∀ {s' ending t' ending'}, SaturatesTo goal s s' ending → SaturatesTo goal' t t' ending' →
          Q s' ending t' ending')
    (hclosed : ∀ {s t}, R s t → Q s .closed t .closed) {s s' : Session} {ending : Ending}
    (h : SaturatesTo goal s s' ending) :
    ∀ {t t' : Session} {ending' : Ending}, SaturatesTo goal' t t' ending' → R s t →
      Q s' ending t' ending' := by
  induction h with
  | found hfind =>
    intro t t' ending' h' hrel
    rcases hstep hrel with ⟨hs, _⟩ | hends
    · rw [hs.find?] at hfind
      cases hfind
    · exact hends (.found hfind) h'
  | full hfind hsize =>
    intro t t' ending' h' hrel
    rcases hstep hrel with ⟨hs, _⟩ | hends
    · exact absurd hs.facts (Nat.not_le_of_lt hsize)
    · exact hends (.full hfind hsize) h'
  | spent hfind hsize hpasses =>
    intro t t' ending' h' hrel
    rcases hstep hrel with ⟨hs, _⟩ | hends
    · exact absurd hs.passes (Nat.not_lt_of_le hpasses)
    · exact hends (.spent hfind hsize hpasses) h'
  | closed hfind hsize hpasses hupdated =>
    intro t t' ending' h' hrel
    rcases hstep hrel with ⟨_, ht, hpass, hsame⟩ | hends
    · rcases h'.of_goesOn ht with ⟨_, rfl, rfl⟩ | ⟨hupdated', _⟩
      · exact hclosed hpass
      · rw [hsame, hupdated] at hupdated'
        cases hupdated'
    · exact hends (.closed hfind hsize hpasses hupdated) h'
  | again hfind hsize hpasses hupdated hrest ih =>
    intro t t' ending' h' hrel
    rcases hstep hrel with ⟨_, ht, hpass, hsame⟩ | hends
    · rcases h'.of_goesOn ht with ⟨hupdated', _⟩ | ⟨_, hrest'⟩
      · rw [hsame, hupdated] at hupdated'
        cases hupdated'
      · exact ih hrest' hpass
    · exact hends (.again hfind hsize hpasses hupdated hrest) h'

/-! ## Goals in step -/

/-- Goal after goal, sessions that start related stay so or come to where `Q` is settled. The second
session has the images of the goals. -/
theorem prove_in_step (image : Translation) {P : Formula → Prop} {R : Session → Session → Prop}
    {Q : Session × Outcome → Session × Outcome → Prop}
    (hattempt : ∀ {goal s t}, P goal → R s t →
      ((s.attempt goal).value.2 = none ∧ (t.attempt (image.map goal)).value.2 = none ∧
          R (s.attempt goal).value.1 (t.attempt (image.map goal)).value.1) ∨
        Q (s.prove goal).value (t.prove (image.map goal)).value)
    (hassume : ∀ {a c s t}, P (.imp a c) → R s t →
      P c ∧ R (s.assume a c).value (t.assume (image.map a) (image.map c)).value)
    (hstuck : ∀ {s t}, R s t → Q (s, .notDerivable) (t, .notDerivable)) (goal : Formula) :
    ∀ {s t : Session}, P goal → R s t →
      Q (s.prove goal).value (t.prove (image.map goal)).value := by
  induction goal using Formula.goal_induction with
  | of_not_imp goal hnot =>
    intro s t hgoal hrel
    rcases hattempt hgoal hrel with ⟨hopen, hopen', hrel⟩ | hends
    · have hnot' := (image.isImp_map goal).trans hnot
      rw [value_prove_of_not_imp s hnot, value_prove_of_not_imp t hnot', hopen, hopen']
      exact hstuck hrel
    · exact hends
  | imp a c ih =>
    intro s t hgoal hrel
    rcases hattempt hgoal hrel with ⟨hopen, hopen', hrel⟩ | hends
    · obtain ⟨hgoal, hrel⟩ := hassume hgoal hrel
      rw [image.map_imp] at hopen' hrel ⊢
      rw [value_prove_imp, value_prove_imp, hopen, hopen']
      exact ih hgoal hrel
    · exact hends

/-! ## Simulations -/

theorem rel_of_eq {found found' : Option FactId} (h : found' = found) :
    Option.Rel Eq found found' := by
  subst h
  cases found' with
  | none => exact .none
  | some id => exact .some rfl

structure SameCounts (s t : Session) : Prop where
  maxFacts : t.config.maxFacts = s.config.maxFacts
  maxPasses : t.config.maxPasses = s.config.maxPasses
  size : t.base.size = s.base.size
  passes : t.tally.passes = s.tally.passes

theorem SameCounts.updated_eq {s t : Session} (h : s.SameCounts t)
    (hpass : s.pass.value.1.SameCounts t.pass.value.1) :
    t.pass.value.2.updated = s.pass.value.2.updated := by
  have hsize := hpass.size
  rw [size_pass, size_pass, h.size, Nat.add_left_cancel_iff] at hsize
  rw [pass_updated, pass_updated, hsize]

/-- A relation between sessions with the same counts that a pass, a pruning and an assumption keep.
The second session is given images of formulas, and its facts and proofs correspond to those of the
first. The first session is followed as long as it fits, and for goals that are admitted. -/
structure Simulation where
  image : Translation
  Rel : Session → Session → Prop
  SameFact : FactId → FactId → Prop
  SameProof : Proof → Proof → Prop
  Fits : Session → Prop
  Admits : Formula → Prop
  fits_of_step : ∀ {s t}, Step s t → Fits t → Fits s
  admits_of_imp : ∀ {a c}, Admits (.imp a c) → Admits c
  counts : ∀ {s t}, Rel s t → s.SameCounts t
  find? : ∀ {s t}, Rel s t → ∀ f,
    Option.Rel SameFact (s.base.find? f) (t.base.find? (image.map f))
  proofOf : ∀ {s t}, Rel s t → ∀ {id id'}, SameFact id id' →
    SameProof (s.proofOf id) (t.proofOf id')
  pass : ∀ {s t}, Rel s t → s.base.size ≤ s.config.maxFacts →
    s.tally.passes < s.config.maxPasses → Fits s.pass.value.1 →
      Rel s.pass.value.1 t.pass.value.1
  prune : ∀ {s t}, Rel s t → Rel s.prune.value t.prune.value
  assume : ∀ {s t}, Rel s t → ∀ {a c}, Admits (.imp a c) →
    Rel (s.assume a c).value (t.assume (image.map a) (image.map c)).value

namespace Simulation

variable (S : Simulation) {s t : Session}

theorem fits_of_reaches (h : s.Reaches t) (ht : S.Fits t) : S.Fits s := by
  induction h with
  | refl => exact ht
  | tail _ hstep ih => exact ih (S.fits_of_step hstep ht)

/-- Before a pass both searches go on, or both end in the same way. -/
theorem goesOn_or_ends (h : S.Rel s t) (goal : Formula) :
    (s.GoesOn goal ∧ t.GoesOn (S.image.map goal)) ∨
      ∃ ending ending', ending.Rel S.SameFact ending' ∧ SaturatesTo goal s s ending ∧
        SaturatesTo (S.image.map goal) t t ending' := by
  have hcounts := S.counts h
  have hfind := S.find? h goal
  generalize hs : s.base.find? goal = found at hfind
  generalize ht : t.base.find? (S.image.map goal) = found' at hfind
  cases hfind with
  | some hsame => exact Or.inr ⟨_, _, .goalFound hsame, .found hs, .found ht⟩
  | none =>
    rcases Nat.lt_or_ge s.config.maxFacts s.base.size with hsize | hsize
    · refine Or.inr ⟨_, _, .limitExceeded _, .full hs hsize, ?_⟩
      rw [← hcounts.maxFacts]
      exact .full ht (by rwa [hcounts.maxFacts, hcounts.size])
    · have hsize' : t.base.size ≤ t.config.maxFacts := by rwa [hcounts.maxFacts, hcounts.size]
      rcases Nat.lt_or_ge s.tally.passes s.config.maxPasses with hpasses | hpasses
      · refine Or.inl ⟨⟨hs, hsize, hpasses⟩, ht, hsize', ?_⟩
        rwa [hcounts.maxPasses, hcounts.passes]
      · refine Or.inr ⟨_, _, .limitExceeded _, .spent hs hsize hpasses, ?_⟩
        rw [← hcounts.maxPasses]
        exact .spent ht hsize' (by rwa [hcounts.maxPasses, hcounts.passes])

theorem saturate (h : S.Rel s t) (goal : Formula) (hfits : S.Fits (s.saturate goal).value.1) :
    S.Rel (s.saturate goal).value.1 (t.saturate (S.image.map goal)).value.1 ∧
      Ending.Rel S.SameFact (s.saturate goal).value.2 (t.saturate (S.image.map goal)).value.2 := by
  refine SaturatesTo.in_step (R := S.Rel)
    (Q := fun s' ending t' ending' => S.Fits s' → S.Rel s' t' ∧ ending.Rel S.SameFact ending')
    (fun {s t} h => ?_) (fun h _ => ⟨h, .closed⟩) (saturatesTo_saturate s goal)
    (saturatesTo_saturate t (S.image.map goal)) h hfits
  rcases S.goesOn_or_ends h goal with ⟨hs, ht⟩ | ⟨ending, ending', hending, hends, hends'⟩
  · -- beyond what fits nothing is claimed, and a search does not come back from there
    by_cases hfits : S.Fits s.pass.value.1
    · have hpass := S.pass h hs.facts hs.passes hfits
      exact Or.inl ⟨hs, ht, hpass, (S.counts h).updated_eq (S.counts hpass)⟩
    · refine Or.inr fun hsat _ hend => absurd (S.fits_of_reaches ?_ hend) hfits
      exact hsat.reaches_of_goesOn hs
  · refine Or.inr fun hsat hsat' _ => ?_
    obtain ⟨rfl, rfl⟩ := hends.unique hsat
    obtain ⟨rfl, rfl⟩ := hends'.unique hsat'
    exact ⟨h, hending⟩

theorem attempt (h : S.Rel s t) (goal : Formula) (hfits : S.Fits (s.attempt goal).value.1) :
    S.Rel (s.attempt goal).value.1 (t.attempt (S.image.map goal)).value.1 ∧
      Option.Rel (Outcome.Rel S.SameProof) (s.attempt goal).value.2
        (t.attempt (S.image.map goal)).value.2 := by
  rw [value_attempt] at hfits ⊢
  rw [value_attempt]
  obtain ⟨hsat, hending⟩ := S.saturate h goal (S.fits_of_step (.search (.prune _)) hfits)
  have hpruned := S.prune hsat
  refine ⟨hpruned, ?_⟩
  have hfind := S.find? hpruned goal
  -- what an attempt comes to depends on what is found and on how its saturation ended
  generalize FactBase.find? _ goal = found at hfind ⊢
  generalize FactBase.find? _ (S.image.map goal) = found' at hfind ⊢
  generalize (s.saturate goal).value.2 = ending at hending ⊢
  generalize (t.saturate (S.image.map goal)).value.2 = ending' at hending ⊢
  cases hfind with
  | some hsame => exact .some (.proved (S.proofOf hpruned hsame))
  | none =>
    cases hending with
    | goalFound | closed => exact .none
    | limitExceeded limit => exact .some (.limitExceeded limit)

theorem prove (goal : Formula) (hadmits : S.Admits goal) (h : S.Rel s t)
    (hfits : S.Fits (s.prove goal).value.1) :
    S.Rel (s.prove goal).value.1 (t.prove (S.image.map goal)).value.1 ∧
      Outcome.Rel S.SameProof (s.prove goal).value.2 (t.prove (S.image.map goal)).value.2 := by
  refine prove_in_step S.image (P := S.Admits) (R := S.Rel)
    (Q := fun x y => S.Fits x.1 → S.Rel x.1 y.1 ∧ x.2.Rel S.SameProof y.2)
    (fun {goal s t} _ h => ?_)
    (fun hadmits h => ⟨S.admits_of_imp hadmits, S.assume h hadmits⟩)
    (fun h _ => ⟨h, .notDerivable⟩) goal hadmits h hfits
  by_cases hfits : S.Fits (s.attempt goal).value.1
  · obtain ⟨hattempt, houtcome⟩ := S.attempt h goal hfits
    generalize hs : (s.attempt goal).value.2 = outcome at houtcome
    generalize ht : (t.attempt (S.image.map goal)).value.2 = outcome' at houtcome
    cases houtcome with
    | none => exact Or.inl ⟨rfl, rfl, hattempt⟩
    | some houtcome =>
      rw [value_prove_of_attempt hs, value_prove_of_attempt ht]
      exact Or.inr fun _ => ⟨hattempt, houtcome⟩
  · refine Or.inr fun hend => absurd (S.fits_of_reaches ?_ hend) hfits
    exact reaches_prove_of_attempt s goal

end Simulation

end Session

end Turnstile
