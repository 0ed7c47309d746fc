import Turnstile.Proofs.Atoms
import Turnstile.Proofs.Order

/-!
The order in which a pass goes through the rules does not matter, as long as the given facts have a
common model and the store stays within its bound.

A pass searches before it adds, so in another order it finds the same conclusions one after the
other in another way. Of those that share an entry the first is stored, and it need not be the same
one; but where all are true under one valuation, conclusions that share an entry are alike.

* `Consistent.eval_found`: what a pass finds in a consistent session is true;
* `FactBase.covers_addMatches`: a store that takes in some true conclusions is covered by one that
  has room for them and more;
* `FactBase.Records.get_of_covers`: stores that cover each other know the same of every atom;
* `passOver_perm`: so a pass comes to the same in any order of the rules.
-/

namespace Turnstile

open Formula

namespace FactBase

variable {b c : FactBase} {v : Valuation}

/-- What the first store has added the second has tried as well. So it holds an entry for it, and
that is no other atom, since both are true. -/
theorem covers_addMatches {maxFacts : Nat} {part whole : List Match} (hb : b.Distinct)
    (hfacts : ∀ {id fact}, b.get? id = some fact → fact.formula.eval v = true)
    (hwhole : ∀ m ∈ whole, m.formula.eval v = true) (hpart : ∀ m ∈ part, m ∈ whole)
    (hroom : (b.addMatches maxFacts whole).value.1.size ≤ maxFacts) :
    (b.addMatches maxFacts part).value.1.Covers (b.addMatches maxFacts whole).value.1 := by
  have hadds := adds_addMatches maxFacts b part
  have hadds' := adds_addMatches maxFacts b whole
  have htrue : ∀ {id fact}, (b.addMatches maxFacts whole).value.1.get? id = some fact →
      fact.formula.eval v = true := by
    intro id fact hget
    rcases get?_addMatches hget with hold | ⟨_, m, hm, rfl⟩
    · exact hfacts hold
    · exact hwhole m hm
  intro id q hget
  rcases get?_addMatches hget with hold | ⟨hnew, m, hm, rfl⟩
  · refine ⟨id, q, hadds'.kept hold, alike_refl _, ?_⟩
    rw [hadds.isLive_eq hold, hadds'.isLive_eq hold]
  · have hm' := hpart m hm
    obtain ⟨i, p, hi, hsame⟩ := contains_iff.mp (contains_addMatches hm' hroom)
    refine ⟨i, p, hi, alike_symm (alike_of_sameEntry hsame (htrue hi) (hwhole m hm')), ?_⟩
    have hlive : (b.addMatches maxFacts part).value.1.isLive id = true :=
      hadds.isLive_of_size_le hget hnew
    -- had the entry been there before, the conclusion would not have been added
    have hnew' : b.size ≤ i := by
      refine Nat.le_of_not_lt fun hlt => ?_
      obtain ⟨p', hold⟩ := exists_get?_of_lt hlt
      obtain rfl : p' = p := Option.some.inj ((hadds'.kept hold).symm.trans hi)
      have hid : i = id := hb.addMatches maxFacts part (hadds.kept hold) hget hsame
      exact absurd hnew (Nat.not_le_of_lt (hid ▸ hlt))
    rw [hlive, hadds'.isLive_of_size_le hi hnew']

/-- A stored atom has the truth of its sign, so that atoms that are alike tell the same. -/
theorem Records.get_of_covers {name : String} (hb : b.Records name) (hc : c.Records name)
    (hgrounded : b.Grounded) (hgrounded' : c.Grounded) (h : b.Covers c) {truth : Bool}
    (hknown : b.atoms.get name = some truth) : c.atoms.get name = some truth := by
  obtain ⟨id, fact, hget, negated, hatom⟩ := (hb truth).mp hknown
  obtain ⟨id', fact', hget', halike, _⟩ := h hget
  have hholding := (hgrounded hget).holding
  have hholding' := (hgrounded' hget').holding
  rw [hatom] at hholding halike
  obtain ⟨truth', hatom'⟩ := alike_atom_iff.mp halike
  rw [hatom'] at hholding'
  have hsame : truth' = some truth :=
    (atom.inj hholding').2.2.symm.trans (atom.inj hholding).2.2
  exact (hc truth).mpr ⟨id', fact', hget', negated, by rw [hatom', hsame]⟩

end FactBase

namespace Session

variable {s : Session} {rules : List Rule} {v : Valuation}

theorem Reachable.consistent (hs : s.Reachable) (h : ∀ f ∈ s.base.given, f.eval v = true) :
    s.Consistent v where
  reachable := hs
  eval {id _} hget := hs.grounded.eval v id hget fun _ _ _ hp hgiven =>
    h _ (FactBase.mem_given_of_get? hp hgiven)

theorem Consistent.eval_found (hs : s.Consistent v) {m : Match} (hm : m ∈ s.found) :
    m.formula.eval v = true := by
  refine (mem_found.mp hm).1.eval ?_
  rintro i f ⟨fact, hlive, rfl⟩
  have hget := (FactBase.mem_live.mp hlive).1
  exact ⟨hs.eval hget, isFaithful_of_holding (hs.reachable.grounded hget).holding⟩

/-! ## Passes over given rules -/

theorem mem_foundOver {m : Match} (hperm : rules.Perm Rule.catalog) :
    m ∈ s.foundOver rules ↔ m ∈ s.found := by
  simp only [found, foundOver, List.mem_flatMap, hperm.mem_iff]

theorem Reachable.distinct_passOver (hs : s.Reachable) (rules : List Rule) :
    (s.passOver rules).value.1.base.Distinct := by
  rw [passOver_base]
  exact hs.distinct.addMatches _ _

theorem Reachable.records_passOver (hs : s.Reachable) (rules : List Rule) (name : String) :
    (s.passOver rules).value.1.base.Records name := by
  rw [passOver_base]
  exact (hs.records name).addMatches _ _

theorem Reachable.grounded_passOver (hs : s.Reachable) (hperm : rules.Perm Rule.catalog) :
    (s.passOver rules).value.1.base.Grounded := by
  rw [passOver_base]
  exact hs.grounded.addMatches _ fun m hm => (mem_found.mp ((mem_foundOver hperm).mp hm)).1

theorem Consistent.covers_passOver (hs : s.Consistent v) {rules' : List Rule}
    (hperm : rules.Perm Rule.catalog) (hperm' : rules'.Perm Rule.catalog)
    (hroom : (s.passOver rules').value.1.base.size ≤ s.config.maxFacts) :
    (s.passOver rules).value.1.base.Covers (s.passOver rules').value.1.base := by
  rw [passOver_base] at hroom
  rw [passOver_base, passOver_base]
  refine FactBase.covers_addMatches hs.reachable.distinct hs.eval (fun m hm => ?_)
    (fun m hm => ?_) hroom
  · exact hs.eval_found ((mem_foundOver hperm').mp hm)
  · exact (mem_foundOver hperm').mpr ((mem_foundOver hperm).mp hm)

/-- Whatever the commands before, if the given facts have a common model and a pass stays within the
bound on facts, then going through the rules in another order adds as many facts, gives the same
facts up to likeness, and teaches the same of every atom. -/
theorem passOver_perm (config : Config) (cs : List Command) {rules : List Rule}
    (hperm : rules.Perm Rule.catalog)
    (hmodel : ∃ v : Valuation,
      ∀ f ∈ ((start config).performAll cs).value.1.base.given, f.eval v = true)
    (hroom : ((start config).performAll cs).value.1.pass.value.1.base.size ≤
      ((start config).performAll cs).value.1.config.maxFacts) :
    let s := ((start config).performAll cs).value.1
    let result := s.pass.value
    let result' := (s.passOver rules).value
    result'.2.factsAdded = result.2.factsAdded ∧
      result.1.base.Covers result'.1.base ∧ result'.1.base.Covers result.1.base ∧
      ∀ name, result'.1.base.atoms.get name = result.1.base.atoms.get name := by
  intro s result result'
  obtain ⟨v, hgiven⟩ := hmodel
  have hs : s.Reachable := reachable_performAll config cs
  have hconsistent : s.Consistent v := hs.consistent hgiven
  have hcovered : result'.1.base.Covers result.1.base :=
    hconsistent.covers_passOver hperm (.refl _) hroom
  have hle := hcovered.size_le (hs.distinct_passOver rules)
  -- so the other order stays within the bound as well
  have hcovers : result.1.base.Covers result'.1.base :=
    hconsistent.covers_passOver (.refl _) hperm (Nat.le_trans hle hroom)
  have hge := hcovers.size_le (hs.distinct_passOver Rule.catalog)
  refine ⟨?_, hcovers, hcovered, fun name => Option.ext fun truth => ?_⟩
  · have hsize : result'.1.base.size = result.1.base.size := Nat.le_antisymm hle hge
    rw [size_passOver, size_pass] at hsize
    exact Nat.add_left_cancel hsize
  · have hrecords := hs.records_passOver Rule.catalog name
    have hrecords' := hs.records_passOver rules name
    have hgrounded := hs.grounded_passOver (List.Perm.refl Rule.catalog)
    have hgrounded' := hs.grounded_passOver hperm
    exact ⟨hrecords'.get_of_covers hrecords hgrounded' hgrounded hcovered,
      hrecords.get_of_covers hrecords' hgrounded hgrounded' hcovers⟩

/-- From `A → B` one rule draws `¬A ∨ B`, and from `¬(¬B ∧ A)` another draws `B ∨ ¬A`. Which of the
two is stored depends on the order. There is room for just what a pass adds. -/
theorem passOver_perm_reversed :
    let config : Config := ⟨4, 128, true⟩
    let cs : List Command :=
      [.add (.imp (.var "A") (.var "B")),
        .add (Formula.conj (Formula.var "B").negate (.var "A")).negate]
    let s := ((start config).performAll cs).value.1
    let result := s.pass.value
    let result' := (s.passOver Rule.catalog.reverse).value
    result.1.base.size = 4 ∧ result.1.base.get? 2 ≠ result'.1.base.get? 2 ∧
      result'.2.factsAdded = result.2.factsAdded ∧
      result.1.base.Covers result'.1.base ∧ result'.1.base.Covers result.1.base ∧
      ∀ name, result'.1.base.atoms.get name = result.1.base.atoms.get name := by
  have hperm : Rule.catalog.reverse.Perm Rule.catalog := List.reverse_perm _
  -- no `intro`: names for the passes would be matched by evaluating what they stand for
  refine ⟨by decide +kernel, by decide +kernel, passOver_perm _ _ hperm ?_ ?_⟩
  · exact ⟨fun _ => true, by decide +kernel⟩
  · decide +kernel

end Session

end Turnstile
