import Mathlib.Data.List.Induction
import Turnstile.Proofs.Catalog
import Turnstile.Proofs.Provenance

/-!
The table of atoms that a store keeps beside its facts.

* `AtomTable.get_learn_eq_some_iff`, `AtomTable.names_learn`: what a table knows and lists once a
  formula is a fact;
* `FactBase.Records`: the table knows the truth of an atom exactly if a stored fact tells it. Adding
  a fact keeps that, whatever the fact, since of the atoms of one name only the first is stored;
* `FactBase.ListsGiven`: the table lists the atoms of the given facts in the order in which they
  first appear there. Inferred facts have no other atoms (`Grounded.usesOnly_given`);
* `atoms_settled`: so it is in every session, where moreover atoms are stored with the truth that
  their sign gives them, and a truth once known is never lost.
-/

namespace Turnstile

/-- The formula is an atom that stores the truth of the name. -/
def Formula.Tells (f : Formula) (name : String) (truth : Bool) : Prop :=
  ∃ negated, f = .atom name negated (some truth)

/-! ## First appearances -/

private theorem eraseDups_concat (l : List String) (x : String) :
    (l ++ [x]).eraseDups = if x ∈ l then l.eraseDups else l.eraseDups ++ [x] := by
  rw [List.eraseDups_append]
  split
  · next h => simp [List.removeAll, h]
  · next h => simp [List.removeAll, h, List.eraseDups_cons]

private theorem eraseDups_append_eraseDups (l m : List String) :
    (l ++ m.eraseDups).eraseDups = (l ++ m).eraseDups := by
  induction m using List.reverseRecOn with
  | nil => rfl
  | append_singleton m x ih =>
    rw [eraseDups_concat m, ← List.append_assoc, eraseDups_concat (l ++ m)]
    split
    · next hx => rw [ih, if_pos (List.mem_append_right l hx)]
    · rw [← List.append_assoc, eraseDups_concat]
      simp only [List.mem_append, List.mem_eraseDups, ih]

private theorem eraseDups_append_of_subset {l m : List String} (h : ∀ x ∈ m, x ∈ l) :
    (l ++ m).eraseDups = l.eraseDups := by
  have hnone : m.removeAll l = [] := by simpa [List.removeAll] using h
  rw [List.eraseDups_append, hnone, List.eraseDups_nil, List.append_nil]

/-! ## The table -/

namespace AtomTable

variable {t : AtomTable} {l : List String}

/-- The atoms that are listed, in their order. -/
def names (t : AtomTable) : List String := t.map Prod.fst

theorem has_iff {name : String} : t.has name = true ↔ name ∈ t.names := by
  simp [has, names, List.lookup_isSome_iff]

theorem has_note (t : AtomTable) (name : String) : (t.note name).has name = true := by
  unfold note
  split
  · next h => exact h
  · exact has_iff.mpr (by simp [names])

@[simp] theorem get_note (t : AtomTable) (name other : String) :
    (t.note name).get other = t.get other := by
  unfold note
  split
  · rfl
  · rw [get, get, List.lookup_append]
    cases List.lookup other t with
    | some truth => rfl
    | none => cases h : other == name <;> simp [List.lookup_cons, h]

@[simp] theorem get_noteAll (t : AtomTable) (listed : List String) (name : String) :
    (t.noteAll listed).get name = t.get name := by
  unfold noteAll
  induction listed generalizing t with
  | nil => rfl
  | cons other listed ih => rw [List.foldl_cons, ih, get_note]

private theorem lookup_overwritten (t : AtomTable) (name other : String) (truth : Truth) :
    List.lookup other (t.map fun (key, old) =>
        if key == name then (key, truth) else (key, old)) =
      if other = name then (List.lookup other t).map fun _ => truth else List.lookup other t := by
  induction t with
  | nil => simp
  | cons entry t ih =>
    obtain ⟨key, old⟩ := entry
    rw [List.map_cons]
    by_cases hname : key = name
    · subst hname
      by_cases hother : other = key
      · simp [hother]
      · have hne : (other == key) = false := beq_false_of_ne hother
        simpa [List.lookup_cons, hne, hother] using ih
    · by_cases hother : other = key
      · simp [hother, hname]
      · have hne : (other == key) = false := beq_false_of_ne hother
        simpa [List.lookup_cons, hne, hname] using ih

theorem get_put (t : AtomTable) (name other : String) (truth : Truth) :
    (t.put name truth).get other = if other = name then truth else t.get other := by
  rw [get, put, lookup_overwritten]
  split
  · next h =>
    subst h
    obtain ⟨old, hold⟩ := Option.isSome_iff_exists.mp (has_note t other)
    rw [hold]
    rfl
  · exact get_note t name other

@[simp] theorem value_set (t : AtomTable) (name : String) (truth : Truth) :
    (t.set name truth).value = t.put name truth := by
  unfold set
  dsimp only
  split <;> rfl

/-- A table that has learnt a formula knows what an atom tells, and all else as before. -/
theorem get_learn_eq_some_iff {f : Formula} {name : String} {truth : Bool} :
    (t.learn f).value.get name = some truth ↔
      f.Tells name truth ∨ (t.get name = some truth ∧ ∀ other, ¬ f.Tells name other) := by
  cases f with
  | compound => simp [learn, Formula.Tells]
  | atom name' negated truth' =>
    cases truth' with
    | none => simp [learn, Formula.Tells]
    | some truth' =>
      simp only [learn, value_set, get_put, get_noteAll, Formula.Tells]
      by_cases h : name = name'
      · simp [h]
      · simp [h, Ne.symm h]

theorem names_note (h : t.names = l.eraseDups) (name : String) :
    (t.note name).names = (l ++ [name]).eraseDups := by
  have hmem : t.has name = true ↔ name ∈ l := by rw [has_iff, h, List.mem_eraseDups]
  rw [eraseDups_concat, note]
  by_cases hname : name ∈ l
  · rw [if_pos hname, if_pos (hmem.mpr hname), h]
  · rw [if_neg hname, if_neg (mt hmem.mp hname), ← h]
    simp [names]

theorem names_noteAll (h : t.names = l.eraseDups) (listed : List String) :
    (t.noteAll listed).names = (l ++ listed).eraseDups := by
  unfold noteAll
  induction listed generalizing t l with
  | nil => rw [List.append_nil]; exact h
  | cons name listed ih =>
    rw [List.foldl_cons, ih (names_note h name), List.append_assoc]
    rfl

theorem names_put (t : AtomTable) (name : String) (truth : Truth) :
    (t.put name truth).names = (t.note name).names := by
  rw [names, put, List.map_map]
  refine List.map_congr_left fun entry _ => ?_
  dsimp only [Function.comp]
  split <;> rfl

/-- The atoms of a formula that is learnt come after those listed before. -/
theorem names_learn (h : t.names = l.eraseDups) (f : Formula) :
    (t.learn f).value.names = (l ++ f.names).eraseDups := by
  have hlisted : (t.noteAll f.atoms).names = (l ++ f.names).eraseDups := by
    rw [names_noteAll h, Formula.atoms, eraseDups_append_eraseDups]
  cases f with
  | compound => exact hlisted
  | atom name negated truth =>
    cases truth with
    | none => exact hlisted
    | some truth =>
      -- the atom itself is listed by then
      simp only [learn, value_set]
      rw [names_put, names_note hlisted]
      exact eraseDups_append_of_subset (by simp [Formula.names])

end AtomTable

namespace FactBase

variable {b c : FactBase} {name : String}

/-! ## What the table knows -/

/-- The table knows the truth of an atom exactly if a stored fact tells it. -/
def Records (b : FactBase) (name : String) : Prop :=
  ∀ truth, b.atoms.get name = some truth ↔
    ∃ id fact, b.get? id = some fact ∧ fact.formula.Tells name truth

theorem records_emptyWith (d : Digest) (name : String) : (emptyWith d).Records name := by
  intro truth
  constructor
  · nofun
  · rintro ⟨id, fact, hget, _⟩
    rw [get?_emptyWith] at hget
    cases hget

namespace Records

theorem push (hb : b.Records name) (fact : Fact) : (b.push fact).value.1.Records name := by
  cases hheld : b.contains fact.formula with
  | true => rw [value_push_of_contains hheld]; exact hb
  | false =>
    -- a fact that is new tells nothing of an atom that is stored already
    have silent : ∀ {id p truth}, b.get? id = some p → p.formula.Tells name truth →
        ∀ other, ¬ fact.formula.Tells name other := by
      rintro id p truth hp ⟨negated, hatom⟩ other ⟨negated', hatom'⟩
      have hsame : p.formula.sameEntry fact.formula = true := by
        rw [hatom, hatom']
        simp [Formula.sameEntry]
      rw [contains_iff.mpr ⟨id, p, hp, hsame⟩] at hheld
      cases hheld
    intro truth
    rw [value_push_of_not_contains hheld]
    change (b.atoms.learn fact.formula).value.get name = some truth ↔ _
    rw [AtomTable.get_learn_eq_some_iff]
    constructor
    · rintro (htells | ⟨hget, _⟩)
      · exact ⟨b.size, fact, by rw [get?_append, if_pos rfl], htells⟩
      · obtain ⟨id, p, hp, htells⟩ := (hb truth).mp hget
        exact ⟨id, p, (grows_append b fact _).kept hp, htells⟩
    · rintro ⟨id, p, hp, htells⟩
      rw [get?_append] at hp
      split at hp
      · cases hp
        exact Or.inl htells
      · exact Or.inr ⟨(hb truth).mpr ⟨id, p, hp, htells⟩, silent hp htells⟩

theorem prune (hb : b.Records name) : b.prune.value.1.Records name := by
  intro truth
  simp only [get?_prune]
  exact hb truth

theorem addMatches (hb : b.Records name) (maxFacts : Nat) (matched : List Match) :
    (b.addMatches maxFacts matched).value.1.Records name :=
  addMatches_induction (P := fun c => c.Records name) hb fun _ _ hc m _ => hc.push m.toFact

/-- The fact that told a truth stays, so the truth does. -/
theorem get_of_grows (hb : b.Records name) (hc : c.Records name) (h : b.Grows c) {truth : Bool}
    (hknown : b.atoms.get name = some truth) : c.atoms.get name = some truth := by
  obtain ⟨id, fact, hget, htells⟩ := (hb truth).mp hknown
  exact (hc truth).mpr ⟨id, fact, h.kept hget, htells⟩

end Records

/-! ## What the table lists -/

/-- The formulas that were given from outside, in the order of their numbers. -/
def given (b : FactBase) : List Formula :=
  (b.entries.toList.filter fun e => e.fact.isGiven).map fun e => e.fact.formula

theorem mem_given_of_get? {id : FactId} {fact : Fact} (hget : b.get? id = some fact)
    (hgiven : fact.isGiven = true) : fact.formula ∈ b.given := by
  obtain ⟨e, he, rfl⟩ := Option.map_eq_some_iff.mp hget
  have hmem : e ∈ b.entries.toList := Array.mem_toList_iff.mpr (Array.mem_of_getElem? he)
  exact List.mem_map.mpr ⟨e, List.mem_filter.mpr ⟨hmem, hgiven⟩, rfl⟩

theorem given_append (b : FactBase) (fact : Fact) (atoms : AtomTable) :
    (b.append fact atoms).given =
      if fact.isGiven then b.given ++ [fact.formula] else b.given := by
  simp only [given, append, Array.toList_push, List.filter_append, List.map_append]
  cases h : fact.isGiven <;> simp [h]

theorem given_push_of_inferred (b : FactBase) {fact : Fact} (h : fact.isGiven = false) :
    (b.push fact).value.1.given = b.given := by
  cases hheld : b.contains fact.formula with
  | true => rw [value_push_of_contains hheld]
  | false =>
    rw [value_push_of_not_contains hheld]
    change (b.append fact _).given = b.given
    rw [given_append, h]
    rfl

@[simp] theorem given_prune (b : FactBase) : b.prune.value.1.given = b.given := by
  simp only [given, prune, Array.toList_map, List.filter_map, List.map_map]
  rfl

@[simp] theorem given_addMatches (b : FactBase) (maxFacts : Nat) (matched : List Match) :
    (b.addMatches maxFacts matched).value.1.given = b.given :=
  addMatches_induction (P := fun c => c.given = b.given) rfl fun c _ hc _ _ =>
    (given_push_of_inferred c rfl).trans hc

/-- By induction on the number: a rule brings in no atom that its premises do not have. -/
theorem Grounded.usesOnly_given (hb : b.Grounded) (id : FactId) :
    ∀ {fact : Fact}, b.get? id = some fact →
      fact.formula.UsesOnly (· ∈ b.given.flatMap Formula.names) := by
  induction id using Nat.strongRecOn with
  | ind id ih =>
    intro fact hget
    have of_given : fact.isGiven = true →
        fact.formula.UsesOnly (· ∈ b.given.flatMap Formula.names) := fun hgiven _ hname =>
      List.mem_flatMap.mpr ⟨fact.formula, mem_given_of_get? hget hgiven, hname⟩
    have before : ∀ {i f}, b.Before id i f → f.UsesOnly (· ∈ b.given.flatMap Formula.names) := by
      rintro i f ⟨hlt, p, hp, rfl⟩
      exact ih i hlt hp
    cases hb hget with
    | hypothesis f => exact of_given rfl
    | assumption f => exact of_given rfl
    | inference hm =>
      cases hm with
      | one hf hc =>
        exact Rule.usesOnly_of_mem_conclude (before hf) (by simp) (Rule.mem_apply.mp hc).2
      | two hf hg _ hc =>
        refine Rule.usesOnly_of_mem_conclude (before hf) ?_ (Rule.mem_apply.mp hc).2
        rintro g' ⟨⟩
        exact before hg

/-- The table lists the atoms of the given facts, in the order of their first appearance. -/
def ListsGiven (b : FactBase) : Prop :=
  b.atoms.names = (b.given.flatMap Formula.names).eraseDups

namespace ListsGiven

theorem push (hb : b.ListsGiven) {fact : Fact} (hgrounded : (b.push fact).value.1.Grounded) :
    (b.push fact).value.1.ListsGiven := by
  cases hheld : b.contains fact.formula with
  | true => rw [value_push_of_contains hheld]; exact hb
  | false =>
    rw [value_push_of_not_contains hheld] at hgrounded ⊢
    have hnames := AtomTable.names_learn hb fact.formula
    cases hgiven : fact.isGiven with
    | true =>
      change (b.atoms.learn fact.formula).value.names = _
      rw [hnames, given_append, hgiven]
      simp
    | false =>
      have hgivens : (b.append fact (b.atoms.learn fact.formula).value).given = b.given := by
        rw [given_append, hgiven]
        rfl
      have hget : (b.append fact (b.atoms.learn fact.formula).value).get? b.size = some fact := by
        rw [get?_append, if_pos rfl]
      have honly := hgrounded.usesOnly_given b.size hget
      rw [hgivens] at honly
      change (b.atoms.learn fact.formula).value.names = _
      rw [hnames, hgivens]
      exact eraseDups_append_of_subset honly

theorem prune (hb : b.ListsGiven) : b.prune.value.1.ListsGiven := by
  rw [ListsGiven, given_prune]
  exact hb

end ListsGiven

end FactBase

namespace Session

variable {s t : Session}

/-! ## Along a run -/

theorem Step.records {name : String} (h : Step s t) (hs : s.base.Records name) :
    t.base.Records name := by
  cases h with
  | add h => exact hs.push _
  | search h =>
    cases h with
    | pass => rw [pass_base]; exact hs.addMatches _ _
    | prune => exact hs.prune
  | assume a g => exact hs.push _

theorem Reachable.records (hs : s.Reachable) (name : String) : s.base.Records name :=
  hs.invariant (P := fun s => s.base.Records name)
    (fun _ => FactBase.records_emptyWith .standard name) Step.records

/-- That conclusions have no atoms but those of the given facts comes from where they come from. -/
theorem Step.listsGiven (h : Step s t) (hs : s.base.Grounded ∧ s.base.ListsGiven) :
    t.base.Grounded ∧ t.base.ListsGiven := by
  have hgrounded := h.grounded hs.1
  refine ⟨hgrounded, ?_⟩
  cases h with
  | add h => exact hs.2.push hgrounded
  | search h =>
    cases h with
    | pass =>
      rw [pass_base]
      refine (FactBase.addMatches_induction (P := fun c => c.Grounded ∧ c.ListsGiven) hs ?_).2
      intro c hgrows hc m hm
      have hnext := hc.1.push ((mem_found.mp hm).1.justifies hgrows)
      exact ⟨hnext, hc.2.push hnext⟩
    | prune => exact hs.2.prune
  | assume a g => exact hs.2.push hgrounded

theorem Reachable.listsGiven (hs : s.Reachable) : s.base.ListsGiven := by
  refine (hs.invariant (P := fun s => s.base.Grounded ∧ s.base.ListsGiven) (fun config => ?_)
    Step.listsGiven).2
  refine ⟨fun id fact hget => ?_, rfl⟩
  rw [get?_start] at hget
  cases hget

theorem Searches.given_eq (h : s.Searches t) : t.base.given = s.base.given := by
  induction h with
  | refl => rfl
  | tail _ hstep ih =>
    rw [← ih]
    cases hstep with
    | pass => rw [pass_base]; exact FactBase.given_addMatches _ _ _
    | prune => exact FactBase.given_prune _

/-- Whatever the commands, every stored atom has the truth of its sign, and that is what the table
knows of it. The table knows no other truths, none that it knows is changed by further commands, and
it lists just the atoms of the given facts, as they first appear there, so that searching lists none
and moves none. -/
theorem atoms_settled (config : Config) (cs : List Command) :
    let s := ((start config).performAll cs).value.1
    (∀ id fact name negated truth, s.base.get? id = some fact →
      fact.formula = .atom name negated truth →
        truth = some (!negated) ∧ s.base.atoms.get name = truth) ∧
    (∀ name truth, s.base.atoms.get name = some truth →
      ∃ id fact negated, s.base.get? id = some fact ∧
        fact.formula = .atom name negated (some truth)) ∧
    (∀ ds name truth, s.base.atoms.get name = some truth →
      (s.performAll ds).value.1.base.atoms.get name = some truth) ∧
    s.base.atoms.names = (s.base.given.flatMap Formula.names).eraseDups ∧
    (∀ goal, (s.saturate goal).value.1.base.atoms.names = s.base.atoms.names) := by
  intro s
  have hs : s.Reachable := reachable_performAll config cs
  refine ⟨?_, ?_, ?_, hs.listsGiven, ?_⟩
  · intro id fact name negated truth hget hatom
    have hholding := (hs.grounded hget).holding
    rw [hatom] at hholding
    obtain rfl : some (!negated) = truth := (Formula.atom.inj hholding).2.2
    exact ⟨rfl, (hs.records name _).mpr ⟨id, fact, hget, negated, hatom⟩⟩
  · intro name truth hknown
    obtain ⟨id, fact, hget, negated, hatom⟩ := (hs.records name truth).mp hknown
    exact ⟨id, fact, negated, hget, hatom⟩
  · intro ds name truth hknown
    have hreaches := reaches_performAll ds s
    exact (hs.records name).get_of_grows ((hs.trans hreaches).records name) hreaches.grows hknown
  · intro goal
    have hsearch := (saturatesTo_saturate s goal).searches
    have hlists := (hs.trans hsearch.reaches).listsGiven
    rw [FactBase.ListsGiven, hsearch.given_eq] at hlists
    exact hlists.trans hs.listsGiven.symm

/-- Here `B` is inferred and `¬A` turned away, `C` is assumed, and `D` is only asked for. -/
theorem atoms_settled_after_contradiction :
    let cs : List Command :=
      [.add (.imp (.var "A") (.var "B")), .add (.var "A"), .add (Formula.var "A").negate,
        .prove (.imp (.var "C") (.var "D"))]
    let s := ((start .standard).performAll cs).value.1
    s.base.atoms = [("A", some true), ("B", some true), ("C", some true)] ∧
      (s.performAll [.add (Formula.var "B").negate]).value.1.base.atoms.get "B" = some true ∧
      (s.saturate (.var "D")).value.1.base.atoms.names = ["A", "B", "C"] := by
  intro cs s
  have hatoms : s.base.atoms = [("A", some true), ("B", some true), ("C", some true)] := by
    decide +kernel
  have hsettled := atoms_settled .standard cs
  refine ⟨hatoms, hsettled.2.2.1 _ "B" true ?_, (hsettled.2.2.2.2 _).trans ?_⟩
  · change s.base.atoms.get "B" = some true
    rw [hatoms]
    rfl
  · change s.base.atoms.names = _
    rw [hatoms]
    rfl

end Session

end Turnstile
