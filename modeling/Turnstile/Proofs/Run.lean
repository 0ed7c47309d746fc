import Mathlib.Logic.Relation
import Turnstile.Session.Command
import Turnstile.Proofs.Search

/-!
The runs of a session as relations, so that what a session does can be read off its cases.

* `Step`: one thing a session does, namely to take a hypothesis, to make a pass, to prune, or to
  assume an antecedent. `SearchStep` is the part of it that needs no formula from outside;
* `SaturatesTo`, `ProvesTo`: how saturating and proving end, one constructor for each way out.
  `saturatesTo_saturate` and `provesTo_prove` say that the functions follow them;
* `Reachable.invariant`: what holds at the start and is kept by every step holds in every session
  that is reached. By `reachable_performAll` commands, whatever they are, lead to such sessions.
-/

namespace Turnstile

theorem Formula.exists_eq_imp {f : Formula} (h : f.isImp = true) : ∃ a c, f = .imp a c := by
  unfold isImp at h
  split at h
  · exact ⟨_, _, rfl⟩
  · cases h

/-- Goals are peeled from the left: only an implication has a goal after it. -/
theorem Formula.goal_induction {P : Formula → Prop}
    (of_not_imp : ∀ goal : Formula, goal.isImp = false → P goal)
    (imp : ∀ a c : Formula, P c → P (.imp a c)) (goal : Formula) : P goal := by
  induction goal with
  | atom name negated truth => exact of_not_imp _ rfl
  | compound op negated a c _ ih =>
    cases hgoal : (Formula.compound op negated a c).isImp with
    | false => exact of_not_imp _ hgoal
    | true =>
      obtain ⟨_, _, heq⟩ := Formula.exists_eq_imp hgoal
      cases heq
      exact imp a c ih

theorem Outcome.isProved_iff {outcome : Outcome} :
    outcome.isProved = true ↔ ∃ proof, outcome = .proved proof := by
  cases outcome <;> simp [isProved]

namespace Session

/-! ## One pass -/

/-- The conclusions that a pass over the rules tries to add. -/
def foundOver (s : Session) (rules : List Rule) : List Match :=
  rules.flatMap fun rule => rule.search s.base.live s.isFresh

theorem foundOver_eq (s : Session) (rules : List Rule) :
    s.foundOver rules =
      (rules.map fun rule => (rule, rule.search s.base.live s.isFresh)).flatMap Prod.snd := by
  rw [foundOver, List.flatMap_map]

theorem passOver_base (s : Session) (rules : List Rule) :
    (s.passOver rules).value.1.base =
      (s.base.addMatches s.config.maxFacts (s.foundOver rules)).value.1 := by
  rw [foundOver_eq]
  rfl

theorem passOver_factsAdded (s : Session) (rules : List Rule) :
    (s.passOver rules).value.2.factsAdded =
      (s.base.addMatches s.config.maxFacts (s.foundOver rules)).value.2 := by
  rw [foundOver_eq]
  rfl

theorem size_passOver (s : Session) (rules : List Rule) :
    (s.passOver rules).value.1.base.size =
      s.base.size + (s.passOver rules).value.2.factsAdded := by
  rw [passOver_base, FactBase.size_addMatches, passOver_factsAdded]

/-- The conclusions that a pass tries to add. -/
def found (s : Session) : List Match := s.foundOver Rule.catalog

theorem mem_found {s : Session} {m : Match} :
    m ∈ s.found ↔ s.base.Concludes m ∧ m.parents.any s.isFresh = true := by
  simp only [found, foundOver, List.mem_flatMap, Rule.mem_search]
  constructor
  · rintro ⟨_, _, _, h⟩
    exact h
  · intro h
    exact ⟨m.rule, m.rule.mem_catalog, rfl, h⟩

@[simp] theorem pass_base (s : Session) :
    s.pass.value.1.base = (s.base.addMatches s.config.maxFacts s.found).value.1 :=
  passOver_base s Rule.catalog

theorem pass_factsAdded (s : Session) :
    s.pass.value.2.factsAdded = (s.base.addMatches s.config.maxFacts s.found).value.2 :=
  passOver_factsAdded s Rule.catalog

theorem size_pass (s : Session) :
    s.pass.value.1.base.size = s.base.size + s.pass.value.2.factsAdded :=
  size_passOver s Rule.catalog

@[simp] theorem pass_config (s : Session) : s.pass.value.1.config = s.config := rfl

@[simp] theorem pass_frontier (s : Session) : s.pass.value.1.frontier = s.base.size := rfl

@[simp] theorem pass_tally (s : Session) :
    s.pass.value.1.tally = s.tally.add s.pass.value.2 := rfl

theorem pass_updated (s : Session) :
    s.pass.value.2.updated = decide (s.pass.value.2.factsAdded > 0) := rfl

@[simp] theorem pass_passes (s : Session) : s.pass.value.2.passes = 1 := rfl

/-- A pass that updates nothing leaves the facts as they were. -/
theorem pass_size_of_not_updated {s : Session} (h : s.pass.value.2.updated = false) :
    s.pass.value.1.base.size = s.base.size := by
  rw [pass_updated, decide_eq_false_iff_not] at h
  rw [size_pass]
  omega

/-! ## The other steps -/

@[simp] theorem addHypothesis_base (s : Session) (h : Formula) :
    (s.addHypothesis h).value.1.base = (s.base.push (.hypothesis h)).value.1 := rfl

@[simp] theorem prune_base (s : Session) : s.prune.value.base = s.base.prune.value.1 := rfl

@[simp] theorem assume_base (s : Session) (a g : Formula) :
    (s.assume a g).value.base = (s.base.push (.assumption a)).value.1 := rfl

/-- The assumption is held by the fact just added, or by the one that kept it out. -/
theorem assume_assumptions (s : Session) (a g : Formula) :
    (s.assume a g).value.assumptions = s.assumptions ++
      [⟨a, g, (s.base.push (.assumption a)).value.2.orElse fun _ =>
        (s.base.push (.assumption a)).value.1.find? a⟩] := rfl

/-- What a session does by itself: a pass within the bounds, or a pruning. -/
inductive SearchStep : Session → Session → Prop
  | pass (s : Session) (facts : s.base.size ≤ s.config.maxFacts)
      (passes : s.tally.passes < s.config.maxPasses) : SearchStep s s.pass.value.1
  | prune (s : Session) : SearchStep s s.prune.value

/-- One thing a session does. -/
inductive Step : Session → Session → Prop
  | add (s : Session) (h : Formula) : Step s (s.addHypothesis h).value.1
  | search {s t : Session} (h : SearchStep s t) : Step s t
  | assume (s : Session) (a g : Formula) : Step s (s.assume a g).value

abbrev Searches : Session → Session → Prop := Relation.ReflTransGen SearchStep

abbrev Reaches : Session → Session → Prop := Relation.ReflTransGen Step

theorem Searches.reaches {s t : Session} (h : s.Searches t) : s.Reaches t :=
  Relation.ReflTransGen.mono (fun _ _ => Step.search) s t h

theorem SearchStep.grows {s t : Session} (h : SearchStep s t) : s.base.Grows t.base := by
  cases h with
  | pass => rw [pass_base]; exact FactBase.grows_addMatches _ _ _
  | prune => exact FactBase.grows_prune _

theorem Step.grows {s t : Session} (h : Step s t) : s.base.Grows t.base := by
  cases h with
  | add h => exact FactBase.grows_push _ _
  | search h => exact h.grows
  | assume a g => exact FactBase.grows_push _ _

theorem Reaches.grows {s t : Session} (h : s.Reaches t) : s.base.Grows t.base := by
  induction h with
  | refl => exact FactBase.Grows.refl _
  | tail _ hstep ih => exact ih.trans hstep.grows

theorem Searches.assumptions_eq {s t : Session} (h : s.Searches t) :
    t.assumptions = s.assumptions := by
  induction h with
  | refl => rfl
  | tail _ hstep ih => cases hstep <;> exact ih

theorem Step.config_eq {s t : Session} (h : Step s t) : t.config = s.config := by
  cases h with
  | add | assume => rfl
  | search h => cases h <;> rfl

theorem Reaches.config_eq {s t : Session} (h : s.Reaches t) : t.config = s.config := by
  induction h with
  | refl => rfl
  | tail _ hstep ih => exact hstep.config_eq.trans ih

/-! ## Invariants -/

/-- What every step keeps, a run keeps. -/
theorem Reaches.keeps {P : Session → Prop} (hstep : ∀ {s t}, Step s t → P s → P t) {s t : Session}
    (h : s.Reaches t) (hs : P s) : P t := by
  induction h with
  | refl => exact hs
  | tail _ hlast ih => exact hstep hlast ih

/-- Reached by steps from a start. -/
def Reachable (s : Session) : Prop := ∃ config, (start config).Reaches s

theorem Reachable.trans {s t : Session} (hs : s.Reachable) (h : s.Reaches t) : t.Reachable := by
  obtain ⟨config, hstart⟩ := hs
  exact ⟨config, Relation.ReflTransGen.trans hstart h⟩

theorem Reachable.invariant {P : Session → Prop} (hstart : ∀ config, P (start config))
    (hstep : ∀ {s t}, Step s t → P s → P t) {s : Session} (hs : s.Reachable) : P s := by
  obtain ⟨config, h⟩ := hs
  exact h.keeps hstep (hstart config)

theorem get?_start (config : Config) (id : FactId) : (start config).base.get? id = none :=
  FactBase.get?_emptyWith .standard id

theorem Step.distinct {s t : Session} (h : Step s t) (hs : s.base.Distinct) : t.base.Distinct := by
  cases h with
  | add h => exact hs.push _
  | search h =>
    cases h with
    | pass => rw [pass_base]; exact hs.addMatches _ _
    | prune => exact hs.prune
  | assume a g => exact hs.push _

theorem Reachable.distinct {s : Session} (hs : s.Reachable) : s.base.Distinct :=
  hs.invariant (P := fun s => s.base.Distinct)
    (fun _ => FactBase.distinct_emptyWith .standard) Step.distinct

/-! ## Saturating -/

/-- How saturating for a goal ends: at once, after a pass that added nothing, or as it ends after
a pass that added something. -/
inductive SaturatesTo (goal : Formula) : Session → Session → Ending → Prop
  | found {s : Session} {id : FactId} (hfind : s.base.find? goal = some id) :
      SaturatesTo goal s s (.goalFound id)
  | full {s : Session} (hfind : s.base.find? goal = none)
      (hsize : s.config.maxFacts < s.base.size) :
      SaturatesTo goal s s (.limitExceeded (.facts s.config.maxFacts))
  | spent {s : Session} (hfind : s.base.find? goal = none)
      (hsize : s.base.size ≤ s.config.maxFacts)
      (hpasses : s.config.maxPasses ≤ s.tally.passes) :
      SaturatesTo goal s s (.limitExceeded (.passes s.config.maxPasses))
  | closed {s : Session} (hfind : s.base.find? goal = none)
      (hsize : s.base.size ≤ s.config.maxFacts)
      (hpasses : s.tally.passes < s.config.maxPasses)
      (hupdated : s.pass.value.2.updated = false) :
      SaturatesTo goal s s.pass.value.1 .closed
  | again {s t : Session} {ending : Ending} (hfind : s.base.find? goal = none)
      (hsize : s.base.size ≤ s.config.maxFacts)
      (hpasses : s.tally.passes < s.config.maxPasses)
      (hupdated : s.pass.value.2.updated = true)
      (hrest : SaturatesTo goal s.pass.value.1 t ending) : SaturatesTo goal s t ending

/-- The number of passes left always is what the bound leaves of those made. -/
private theorem saturatesTo_saturateWithin (goal : Formula) (left : Nat) :
    ∀ s : Session, left = s.config.maxPasses - s.tally.passes →
      SaturatesTo goal s (saturateWithin goal left s).value.1
        (saturateWithin goal left s).value.2 := by
  induction left with
  | zero =>
    intro s hleft
    unfold saturateWithin settled?
    cases hfind : s.base.find? goal with
    | some id => exact .found hfind
    | none =>
      by_cases hsize : s.config.maxFacts < s.base.size
      · simp only [gt_iff_lt, hsize, if_true]
        exact .full hfind hsize
      · simp only [gt_iff_lt, hsize, if_false]
        exact .spent hfind (Nat.le_of_not_lt hsize) (by omega)
  | succ left ih =>
    intro s hleft
    unfold saturateWithin settled?
    cases hfind : s.base.find? goal with
    | some id => exact .found hfind
    | none =>
      by_cases hsize : s.config.maxFacts < s.base.size
      · simp only [gt_iff_lt, hsize, if_true]
        exact .full hfind hsize
      · have hroom := Nat.le_of_not_lt hsize
        have hpasses : s.tally.passes < s.config.maxPasses := by omega
        simp only [gt_iff_lt, hsize, if_false, Logged.value_bind]
        cases hupdated : s.pass.value.2.updated with
        | false => exact .closed hfind hroom hpasses hupdated
        | true =>
          refine .again hfind hroom hpasses hupdated (ih s.pass.value.1 ?_)
          simp only [pass_config, pass_tally, Tally.add, pass_passes]
          omega

theorem saturatesTo_saturate (s : Session) (goal : Formula) :
    SaturatesTo goal s (s.saturate goal).value.1 (s.saturate goal).value.2 :=
  saturatesTo_saturateWithin goal _ s rfl

theorem SaturatesTo.searches {goal : Formula} {s t : Session} {ending : Ending}
    (h : SaturatesTo goal s t ending) : s.Searches t := by
  induction h with
  | found | full | spent => exact .refl
  | closed _ hsize hpasses _ => exact .single (.pass _ hsize hpasses)
  | again _ hsize hpasses _ _ ih => exact .head (.pass _ hsize hpasses) ih

theorem SaturatesTo.searches_prune {goal : Formula} {s t : Session} {ending : Ending}
    (h : SaturatesTo goal s t ending) : s.Searches t.prune.value :=
  h.searches.tail (.prune t)

theorem adds_pass (s : Session) : s.base.Adds s.pass.value.1.base := by
  rw [pass_base]
  exact FactBase.adds_addMatches _ _ _

theorem SaturatesTo.adds {goal : Formula} {s t : Session} {ending : Ending}
    (h : SaturatesTo goal s t ending) : s.base.Adds t.base := by
  induction h with
  | found | full | spent => exact FactBase.Adds.refl _
  | closed => exact adds_pass _
  | again _ _ _ _ _ ih => exact (adds_pass _).trans ih

theorem SaturatesTo.find?_of_goalFound {goal : Formula} {s t : Session} {id : FactId}
    (h : SaturatesTo goal s t (.goalFound id)) : t.base.find? goal = some id := by
  generalize hending : Ending.goalFound id = ending at h
  induction h with
  | found hfind =>
    cases hending
    exact hfind
  | full | spent | closed => cases hending
  | again _ _ _ _ _ ih => exact ih hending

/-- How saturating ends depends on the session and the goal alone. -/
theorem SaturatesTo.unique {goal : Formula} {s t t' : Session} {ending ending' : Ending}
    (h : SaturatesTo goal s t ending) (h' : SaturatesTo goal s t' ending') :
    t' = t ∧ ending' = ending := by
  -- the conditions of different constructors exclude one another
  induction h <;> cases h' <;> grind

/-! ## Proving -/

/-- How proving a goal ends. Where the goal is an implication that was not found, it ends as it
ends for the consequent once the antecedent is assumed. -/
inductive ProvesTo : Formula → Session → Session → Outcome → Prop
  | found {goal : Formula} {s t : Session} {ending : Ending} {id : FactId}
      (hsat : SaturatesTo goal s t ending) (hfind : t.prune.value.base.find? goal = some id) :
      ProvesTo goal s t.prune.value (.proved (t.prune.value.proofOf id))
  | stopped {goal : Formula} {s t : Session} {limit : Limit}
      (hsat : SaturatesTo goal s t (.limitExceeded limit))
      (hfind : t.prune.value.base.find? goal = none) :
      ProvesTo goal s t.prune.value (.limitExceeded limit)
  | stuck {goal : Formula} {s t : Session} {ending : Ending} (hsat : SaturatesTo goal s t ending)
      (hending : ∀ limit, ending ≠ .limitExceeded limit)
      (hfind : t.prune.value.base.find? goal = none) (hgoal : goal.isImp = false) :
      ProvesTo goal s t.prune.value .notDerivable
  | assumed {a c : Formula} {s t u : Session} {ending : Ending} {outcome : Outcome}
      (hsat : SaturatesTo (.imp a c) s t ending)
      (hending : ∀ limit, ending ≠ .limitExceeded limit)
      (hfind : t.prune.value.base.find? (.imp a c) = none)
      (hrest : ProvesTo c (t.prune.value.assume a c).value u outcome) :
      ProvesTo (.imp a c) s u outcome

/-- What an attempt comes to, by what it finds and how its saturation ended. -/
theorem value_attempt (s : Session) (goal : Formula) :
    (s.attempt goal).value =
      ((s.saturate goal).value.1.prune.value,
        match (s.saturate goal).value.1.prune.value.base.find? goal,
          (s.saturate goal).value.2 with
        | some id, _ => some (.proved ((s.saturate goal).value.1.prune.value.proofOf id))
        | none, .limitExceeded limit => some (.limitExceeded limit)
        | none, _ => none) := by
  unfold attempt
  simp only [Logged.value_bind]
  split <;> simp_all

theorem reaches_attempt (s : Session) (goal : Formula) : s.Reaches (s.attempt goal).value.1 := by
  rw [value_attempt]
  exact (saturatesTo_saturate s goal).searches_prune.reaches

theorem config_attempt (s : Session) (goal : Formula) :
    (s.attempt goal).value.1.config = s.config := by
  rw [value_attempt]
  exact (saturatesTo_saturate s goal).searches_prune.reaches.config_eq

/-- Unless an attempt leaves the question open, its outcome is the one that proving ends with. -/
private theorem provesTo_of_attempt {s : Session} {goal : Formula} {outcome : Outcome}
    (h : (s.attempt goal).value.2 = some outcome) :
    ProvesTo goal s (s.attempt goal).value.1 outcome := by
  have hsat := saturatesTo_saturate s goal
  rw [value_attempt] at h ⊢
  dsimp only at h ⊢
  split at h
  · next hfind =>
    cases h
    exact .found hsat hfind
  · next limit hfind hlimit =>
    cases h
    rw [hlimit] at hsat
    exact .stopped hsat hfind
  · cases h

/-- What an open attempt leaves behind. -/
private theorem open_of_attempt {s : Session} {goal : Formula}
    (h : (s.attempt goal).value.2 = none) :
    (∀ limit, (s.saturate goal).value.2 ≠ .limitExceeded limit) ∧
      (s.saturate goal).value.1.prune.value.base.find? goal = none := by
  rw [value_attempt] at h
  dsimp only at h
  split at h
  · cases h
  · cases h
  · next hfind hlimit => exact ⟨hlimit, hfind⟩

theorem value_prove_imp (s : Session) (a c : Formula) :
    (s.prove (.imp a c)).value =
      match (s.attempt (.imp a c)).value.2 with
      | some outcome => ((s.attempt (.imp a c)).value.1, outcome)
      | none => (((s.attempt (.imp a c)).value.1.assume a c).value.prove c).value := by
  rw [Formula.imp, prove.eq_1]
  simp only [Logged.value_bind]
  split <;> simp_all [Formula.imp]

theorem value_prove_of_not_imp (s : Session) {goal : Formula} (h : goal.isImp = false) :
    (s.prove goal).value =
      ((s.attempt goal).value.1, (s.attempt goal).value.2.getD .notDerivable) := by
  cases goal with
  | atom => rfl
  | compound op negated a c =>
    cases op with
    | and | or | iff => rfl
    | implies =>
      cases negated with
      | true => rfl
      | false => simp [Formula.isImp] at h

/-- An attempt that does not leave the question open is the whole search. -/
theorem value_prove_of_attempt {s : Session} {goal : Formula} {outcome : Outcome}
    (h : (s.attempt goal).value.2 = some outcome) :
    (s.prove goal).value = ((s.attempt goal).value.1, outcome) := by
  induction goal using Formula.goal_induction with
  | of_not_imp goal hgoal => rw [value_prove_of_not_imp s hgoal, h, Option.getD_some]
  | imp a c _ => rw [value_prove_imp, h]

theorem provesTo_prove (goal : Formula) :
    ∀ s : Session, ProvesTo goal s (s.prove goal).value.1 (s.prove goal).value.2 := by
  induction goal using Formula.goal_induction with
  | of_not_imp goal hgoal =>
    intro s
    rw [value_prove_of_not_imp s hgoal]
    cases hattempt : (s.attempt goal).value.2 with
    | some outcome => exact provesTo_of_attempt hattempt
    | none =>
      obtain ⟨hending, hfind⟩ := open_of_attempt hattempt
      rw [value_attempt]
      exact .stuck (saturatesTo_saturate s goal) hending hfind hgoal
  | imp a c ih =>
    intro s
    rw [value_prove_imp]
    cases hattempt : (s.attempt (.imp a c)).value.2 with
    | some outcome => exact provesTo_of_attempt hattempt
    | none =>
      obtain ⟨hending, hfind⟩ := open_of_attempt hattempt
      rw [value_attempt]
      exact .assumed (saturatesTo_saturate s _) hending hfind (ih _)

theorem ProvesTo.reaches {goal : Formula} {s t : Session} {outcome : Outcome}
    (h : ProvesTo goal s t outcome) : s.Reaches t := by
  induction h with
  | found hsat _ => exact hsat.searches_prune.reaches
  | stopped hsat _ => exact hsat.searches_prune.reaches
  | stuck hsat _ _ _ => exact hsat.searches_prune.reaches
  | assumed hsat _ _ _ ih => exact (hsat.searches_prune.reaches.tail (.assume _ _ _)).trans ih

/-- What is done after a first attempt starts from what it left. -/
theorem reaches_prove_of_attempt (s : Session) (goal : Formula) :
    (s.attempt goal).value.1.Reaches (s.prove goal).value.1 := by
  cases houtcome : (s.attempt goal).value.2 with
  | some outcome =>
    rw [value_prove_of_attempt houtcome]
  | none =>
    induction goal using Formula.goal_induction with
    | of_not_imp goal hgoal =>
      rw [value_prove_of_not_imp s hgoal]
    | imp a c _ =>
      rw [value_prove_imp, houtcome]
      exact .head (.assume _ a c) (provesTo_prove c _).reaches

/-! ## Commands -/

theorem reaches_perform (s : Session) (c : Command) : s.Reaches (s.perform c).value.1 := by
  cases c with
  | add h => exact .single (.add s h)
  | saturate goal => exact (saturatesTo_saturate s goal).searches.reaches
  | prove goal => exact (provesTo_prove goal s).reaches

theorem reaches_performAll (cs : List Command) :
    ∀ s : Session, s.Reaches (s.performAll cs).value.1 := by
  induction cs with
  | nil => exact fun _ => .refl
  | cons c cs ih => exact fun s => (reaches_perform s c).trans (ih (s.perform c).value.1)

theorem reachable_performAll (config : Config) (cs : List Command) :
    ((start config).performAll cs).value.1.Reachable :=
  ⟨config, reaches_performAll cs (start config)⟩

end Session

end Turnstile
