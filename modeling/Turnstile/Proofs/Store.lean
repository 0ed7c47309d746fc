import Turnstile.FactBase
import Turnstile.Proofs.Alike

/-!
What the store of facts does, said of the numbered facts (`get?`) and of which are live (`isLive`).
Nothing here or later looks at keys or buckets again.

* `contains_iff`: a formula is held when some stored fact shares its entry;
* `value_push_of_contains`, `value_push_of_not_contains`: adding a fact;
* `Grows`: facts keep their numbers and none that went out of use comes back. Adding and pruning
  only let the store grow (`grows_push`, `grows_prune`). `Adds`: growth that spares what is in use;
* `Distinct`: no two facts share an entry. In such a store looking a formula up finds exactly the
  live fact that is like it (`find?_eq_some_iff`).
-/

namespace Turnstile

theorem Formula.isTrivial_of_alike {f g : Formula} (h : f.alike g = true)
    (hf : f.isTrivial = true) : g.isTrivial = true := by
  unfold isTrivial at hf
  split at hf
  · obtain ⟨l', r', rfl, ⟨hl, hr⟩ | ⟨hop, _⟩⟩ := alike_compound_iff.mp h
    · exact alike_trans (alike_symm hl) (alike_trans hf hr)
    · cases hop
  · cases hf

namespace FactBase

/-! ## Reading -/

theorem lt_size_of_get? {b : FactBase} {id : FactId} {fact : Fact} (h : b.get? id = some fact) :
    id < b.size := by
  obtain ⟨e, he, _⟩ := Option.map_eq_some_iff.mp h
  exact (Array.getElem?_eq_some_iff.mp he).1

theorem exists_get?_of_lt {b : FactBase} {id : FactId} (h : id < b.size) :
    ∃ fact, b.get? id = some fact := by
  refine ⟨b.entries[id].fact, ?_⟩
  rw [get?, Array.getElem?_eq_getElem h, Option.map_some]

theorem mem_live {b : FactBase} {id : FactId} {fact : Fact} :
    (id, fact) ∈ b.live ↔ b.get? id = some fact ∧ b.isLive id = true := by
  simp only [live, List.mem_filterMap, Prod.exists, List.mem_zipIdx_iff_getElem?,
    Array.getElem?_toList, get?, isLive, Option.map_eq_some_iff, Option.any_eq_true]
  constructor
  · rintro ⟨e, id', he, h⟩
    split at h
    · next hlive =>
      cases h
      exact ⟨⟨e, he, rfl⟩, e, he, hlive⟩
    · cases h
  · rintro ⟨⟨e, he, rfl⟩, e', he', hlive⟩
    rw [he] at he'
    cases he'
    exact ⟨e, id, he, by rw [if_pos hlive]⟩

private theorem any_entry (b : FactBase) (id : FactId) (p : Fact → Bool) :
    (b.entries[id]?.any fun e => p e.fact) = (b.get? id).any p := by
  rw [get?, Option.any_map]

theorem get?_of_holder? {b : FactBase} {f : Formula} {id : FactId} (h : b.holder? f = some id) :
    ∃ fact, b.get? id = some fact ∧ fact.formula.sameEntry f = true := by
  rw [holder?_eq_find?] at h
  have hany := List.find?_some h
  rw [any_entry b id fun fact => fact.formula.sameEntry f] at hany
  exact (Option.any_eq_true _ _).mp hany

theorem contains_iff {b : FactBase} {f : Formula} :
    b.contains f = true ↔
      ∃ id fact, b.get? id = some fact ∧ fact.formula.sameEntry f = true := by
  constructor
  · intro h
    obtain ⟨id, hid⟩ := Option.isSome_iff_exists.mp h
    exact ⟨id, get?_of_holder? hid⟩
  · rintro ⟨id, fact, hget, hsame⟩
    rw [contains, holder?_eq_find?, List.find?_isSome]
    refine ⟨id, List.mem_range.mpr (lt_size_of_get? hget), ?_⟩
    rw [any_entry b id fun fact => fact.formula.sameEntry f, hget]
    exact hsame

theorem contains_of_sameEntry {b : FactBase} {f g : Formula} (h : f.sameEntry g = true)
    (hf : b.contains f = true) : b.contains g = true := by
  obtain ⟨id, fact, hget, hsame⟩ := contains_iff.mp hf
  exact contains_iff.mpr ⟨id, fact, hget, Formula.sameEntry_trans hsame h⟩

theorem contains_of_alike {b : FactBase} {f g : Formula} (h : f.alike g = true)
    (hg : b.contains g = true) : b.contains f = true :=
  contains_of_sameEntry (Formula.sameEntry_of_alike (Formula.alike_symm h)) hg

theorem contains_holding (b : FactBase) (f : Formula) : b.contains f.holding = b.contains f := by
  have h := Formula.sameEntry_holding f f
  rw [Formula.sameEntry_refl] at h
  exact Bool.eq_iff_iff.mpr
    ⟨contains_of_sameEntry (Formula.sameEntry_symm h), contains_of_sameEntry h⟩

/-! ## Growth -/

/-- `c` is a later state of `b`: every fact keeps its number, and none comes back into use. -/
structure Grows (b c : FactBase) : Prop where
  kept : ∀ {id fact}, b.get? id = some fact → c.get? id = some fact
  live : ∀ {id}, id < b.size → c.isLive id = true → b.isLive id = true

namespace Grows

theorem refl (b : FactBase) : b.Grows b := ⟨fun h => h, fun _ h => h⟩

theorem size_le {b c : FactBase} (h : b.Grows c) : b.size ≤ c.size := by
  rcases Nat.lt_or_ge c.size b.size with hlt | hge
  · obtain ⟨fact, hget⟩ := exists_get?_of_lt hlt
    exact absurd (lt_size_of_get? (h.kept hget)) (Nat.lt_irrefl _)
  · exact hge

theorem trans {b c d : FactBase} (hbc : b.Grows c) (hcd : c.Grows d) : b.Grows d where
  kept h := hcd.kept (hbc.kept h)
  live hlt h := hbc.live hlt (hcd.live (Nat.lt_of_lt_of_le hlt hbc.size_le) h)

theorem contains {b c : FactBase} (h : b.Grows c) {f : Formula} (hf : b.contains f = true) :
    c.contains f = true := by
  obtain ⟨id, fact, hget, hsame⟩ := contains_iff.mp hf
  exact contains_iff.mpr ⟨id, fact, h.kept hget, hsame⟩

/-- A fact that was there before is the one found under its number. -/
theorem get?_eq {b c : FactBase} (h : b.Grows c) {id : FactId} (hlt : id < b.size) :
    c.get? id = b.get? id := by
  obtain ⟨fact, hget⟩ := exists_get?_of_lt hlt
  rw [hget, h.kept hget]

theorem mem_live {b c : FactBase} (h : b.Grows c) {id : FactId} {fact : Fact} (hlt : id < b.size)
    (hlive : (id, fact) ∈ c.live) : (id, fact) ∈ b.live := by
  obtain ⟨hget, hlive⟩ := FactBase.mem_live.mp hlive
  rw [h.get?_eq hlt] at hget
  exact FactBase.mem_live.mpr ⟨hget, h.live hlt hlive⟩

end Grows

/-! ## Adding a fact -/

theorem value_push_of_contains {b : FactBase} {fact : Fact}
    (h : b.contains fact.formula = true) : (b.push fact).value = (b, none) := by
  obtain ⟨id, hid⟩ := Option.isSome_iff_exists.mp h
  unfold push
  rw [hid]

theorem value_push_of_not_contains {b : FactBase} {fact : Fact}
    (h : b.contains fact.formula = false) :
    (b.push fact).value =
      (b.append fact (b.atoms.learn fact.formula).value, some b.size) := by
  have hnone : b.holder? fact.formula = none := by simpa [contains] using h
  unfold push
  rw [hnone]
  rfl

theorem isLive_append (b : FactBase) (fact : Fact) (atoms : AtomTable) (id : FactId) :
    (b.append fact atoms).isLive id = if id = b.size then true else b.isLive id := by
  simp only [append, isLive, size, Array.getElem?_push]
  by_cases h : id = b.entries.size <;> simp [h]

theorem grows_append (b : FactBase) (fact : Fact) (atoms : AtomTable) :
    b.Grows (b.append fact atoms) where
  kept h := by
    rw [get?_append, if_neg (Nat.ne_of_lt (lt_size_of_get? h))]
    exact h
  live hlt h := by
    rw [isLive_append, if_neg (Nat.ne_of_lt hlt)] at h
    exact h

theorem grows_push (b : FactBase) (fact : Fact) : b.Grows (b.push fact).value.1 := by
  cases h : b.contains fact.formula with
  | true => rw [value_push_of_contains h]; exact Grows.refl b
  | false => rw [value_push_of_not_contains h]; exact grows_append b fact _

theorem contains_push (b : FactBase) (fact : Fact) :
    (b.push fact).value.1.contains fact.formula = true := by
  cases h : b.contains fact.formula with
  | true => rw [value_push_of_contains h]; exact h
  | false =>
    rw [value_push_of_not_contains h]
    refine contains_iff.mpr ⟨b.size, fact, ?_, Formula.sameEntry_refl _⟩
    rw [get?_append, if_pos rfl]

/-- A fact found after adding one was there before, or is the one added. -/
theorem get?_push {b : FactBase} {fact p : Fact} {id : FactId}
    (h : (b.push fact).value.1.get? id = some p) :
    b.get? id = some p ∨
      (id = b.size ∧ p = fact ∧ b.contains fact.formula = false) := by
  cases hc : b.contains fact.formula with
  | true =>
    rw [value_push_of_contains hc] at h
    exact Or.inl h
  | false =>
    rw [value_push_of_not_contains hc, get?_append] at h
    split at h
    · next hid => exact Or.inr ⟨hid, (Option.some.inj h).symm, rfl⟩
    · exact Or.inl h

theorem contains_of_push_eq_some {b : FactBase} {fact : Fact} {id : FactId}
    (h : (b.push fact).value.2 = some id) : b.contains fact.formula = false ∧ id = b.size := by
  cases hheld : b.contains fact.formula with
  | true =>
    rw [value_push_of_contains hheld] at h
    cases h
  | false =>
    rw [value_push_of_not_contains hheld] at h
    exact ⟨rfl, (Option.some.inj h).symm⟩

/-- `c` comes from `b` by additions only: it has grown, and what is out of use was so before. -/
structure Adds (b c : FactBase) : Prop extends Grows b c where
  spared : ∀ {id fact}, c.get? id = some fact → c.isLive id = false →
    b.get? id = some fact ∧ b.isLive id = false

theorem Adds.refl (b : FactBase) : b.Adds b := ⟨Grows.refl b, fun hget hlive => ⟨hget, hlive⟩⟩

theorem Adds.trans {b c d : FactBase} (hbc : b.Adds c) (hcd : c.Adds d) : b.Adds d where
  toGrows := hbc.toGrows.trans hcd.toGrows
  spared hget hlive := by
    obtain ⟨hget, hlive⟩ := hcd.spared hget hlive
    exact hbc.spared hget hlive

theorem Adds.isLive_eq {b c : FactBase} (h : b.Adds c) {id : FactId} {fact : Fact}
    (hget : b.get? id = some fact) : c.isLive id = b.isLive id := by
  cases hlive : c.isLive id with
  | true => exact (h.live (lt_size_of_get? hget) hlive).symm
  | false => exact (h.spared (h.kept hget) hlive).2.symm

theorem Adds.isLive_of_size_le {b c : FactBase} (h : b.Adds c) {id : FactId} {fact : Fact}
    (hget : c.get? id = some fact) (hnew : b.size ≤ id) : c.isLive id = true := by
  refine (Bool.not_eq_false _).mp fun hdead => ?_
  exact absurd hnew (Nat.not_le_of_lt (lt_size_of_get? (h.spared hget hdead).1))

theorem adds_push (b : FactBase) (fact : Fact) : b.Adds (b.push fact).value.1 where
  toGrows := grows_push b fact
  spared {id p} hget hlive := by
    cases hc : b.contains fact.formula with
    | true =>
      rw [value_push_of_contains hc] at hget hlive
      exact ⟨hget, hlive⟩
    | false =>
      rw [value_push_of_not_contains hc] at hget hlive
      rw [isLive_append] at hlive
      rw [get?_append] at hget
      split at hlive
      · cases hlive
      · next hid =>
        rw [if_neg hid] at hget
        exact ⟨hget, hlive⟩

/-! ## Pruning -/

@[simp] theorem get?_prune (b : FactBase) (id : FactId) : b.prune.value.1.get? id = b.get? id := by
  simp only [prune, get?, Array.getElem?_map, Option.map_map]
  rfl

theorem contains_prune (b : FactBase) (f : Formula) :
    b.prune.value.1.contains f = b.contains f := by
  rw [Bool.eq_iff_iff, contains_iff, contains_iff]
  simp only [get?_prune]

theorem isLive_prune (b : FactBase) (id : FactId) :
    b.prune.value.1.isLive id =
      (b.isLive id && !(b.get? id).any fun fact => fact.formula.isTrivial) := by
  simp only [prune, isLive, get?, Array.getElem?_map, Option.any_map, Entry.prune]
  cases b.entries[id]? <;> simp

theorem grows_prune (b : FactBase) : b.Grows b.prune.value.1 where
  kept h := by rw [get?_prune]; exact h
  live _ h := by
    rw [isLive_prune, Bool.and_eq_true] at h
    exact h.1

/-! ## No two facts share an entry -/

def Distinct (b : FactBase) : Prop :=
  ∀ ⦃i j p q⦄, b.get? i = some p → b.get? j = some q →
    p.formula.sameEntry q.formula = true → i = j

theorem get?_emptyWith (d : Digest) (id : FactId) : (emptyWith d).get? id = none := by
  simp [emptyWith, get?]

theorem distinct_emptyWith (d : Digest) : (emptyWith d).Distinct := by
  intro i j p q hi
  rw [get?_emptyWith] at hi
  cases hi

namespace Distinct

theorem push {b : FactBase} (hb : b.Distinct) (fact : Fact) : (b.push fact).value.1.Distinct := by
  -- a fact that was added shares no entry with those before it
  have apart : b.contains fact.formula = false → ∀ {i p}, b.get? i = some p →
      p.formula.sameEntry fact.formula = true → False := by
    intro hnew i p hi hsame
    rw [contains_iff.mpr ⟨i, p, hi, hsame⟩] at hnew
    exact absurd hnew (by decide)
  intro i j p q hi hj hsame
  rcases get?_push hi with old_i | ⟨rfl, rfl, hnew⟩
  · rcases get?_push hj with old_j | ⟨rfl, rfl, hnew⟩
    · exact hb old_i old_j hsame
    · exact (apart hnew old_i hsame).elim
  · rcases get?_push hj with old_j | ⟨rfl, _, _⟩
    · exact (apart hnew old_j (Formula.sameEntry_symm hsame)).elim
    · rfl

theorem prune {b : FactBase} (hb : b.Distinct) : b.prune.value.1.Distinct := by
  intro i j p q hi hj hsame
  rw [get?_prune] at hi hj
  exact hb hi hj hsame

theorem eq_of_alike {b : FactBase} (hb : b.Distinct) {f : Formula} {i j : FactId} {p q : Fact}
    (hi : b.get? i = some p) (hj : b.get? j = some q) (hp : p.formula.alike f = true)
    (hq : q.formula.alike f = true) : i = j :=
  hb hi hj (Formula.sameEntry_of_alike (Formula.alike_trans hp (Formula.alike_symm hq)))

end Distinct

theorem find?_eq_some {b : FactBase} {f : Formula} {id : FactId} (h : b.find? f = some id) :
    ∃ fact, b.get? id = some fact ∧ b.isLive id = true ∧ fact.formula.alike f = true := by
  obtain ⟨_, hany⟩ := Option.filter_eq_some_iff.mp h
  obtain ⟨e, he, hlive⟩ := (Option.any_eq_true _ _).mp hany
  rw [Bool.and_eq_true] at hlive
  exact ⟨e.fact, by rw [get?, he]; rfl, (Option.any_eq_true _ _).mpr ⟨e, he, hlive.1⟩, hlive.2⟩

/-- Where no two facts share an entry, a formula is found exactly at the live fact it is like. -/
theorem Distinct.find?_eq_some_iff {b : FactBase} (hb : b.Distinct) {f : Formula} {id : FactId} :
    b.find? f = some id ↔
      ∃ fact, b.get? id = some fact ∧ b.isLive id = true ∧ fact.formula.alike f = true := by
  constructor
  · exact find?_eq_some
  · rintro ⟨fact, hget, hlive, halike⟩
    have hheld := contains_iff.mpr ⟨id, fact, hget, Formula.sameEntry_of_alike halike⟩
    obtain ⟨id', hholder⟩ := Option.isSome_iff_exists.mp hheld
    obtain ⟨fact', hget', hsame⟩ := get?_of_holder? hholder
    have hid : id' = id := hb hget' hget
      (Formula.sameEntry_trans hsame (Formula.sameEntry_symm (Formula.sameEntry_of_alike halike)))
    subst hid
    obtain ⟨e, he, rfl⟩ := Option.map_eq_some_iff.mp hget
    obtain ⟨e', he', hlive⟩ := (Option.any_eq_true _ _).mp hlive
    rw [he] at he'
    cases he'
    refine Option.filter_eq_some_iff.mpr ⟨hholder, (Option.any_eq_true _ _).mpr ⟨e, he, ?_⟩⟩
    rw [hlive, halike]
    rfl

/-- Pruning takes no formula out of use but trivial ones. -/
theorem Distinct.find?_prune {b : FactBase} (hb : b.Distinct) {f : Formula} {id : FactId}
    (h : b.find? f = some id) (htrivial : f.isTrivial = false) :
    b.prune.value.1.find? f = some id := by
  obtain ⟨fact, hget, hlive, halike⟩ := find?_eq_some h
  refine hb.prune.find?_eq_some_iff.mpr ⟨fact, by rwa [get?_prune], ?_, halike⟩
  have hkept : fact.formula.isTrivial = false := Bool.eq_false_iff.mpr fun hfact =>
    Bool.eq_false_iff.mp htrivial (Formula.isTrivial_of_alike halike hfact)
  simp [isLive_prune, hlive, hget, hkept]

end FactBase

end Turnstile
