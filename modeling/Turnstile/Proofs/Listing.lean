import Mathlib.Data.List.Nodup
import Turnstile.Proof
import Turnstile.Proofs.Provenance

/-!
The order in which a proof lists its facts.

* `Ordered`: each fact is listed once, and after the facts it was inferred from. In terms of line
  numbers this is `Ordered.lineNumber_lt`;
* `Grounded.ordered_foldl_list`: a listing is always in that order, and `Grounded.mem_foldl_list`:
  the facts that were asked for are in it. The bound on the recursion never cuts a listing short;
* `Ordered.getElem?_lines`: the lines of a listing, one by one.
-/

namespace Turnstile.FactBase

inductive Ordered (b : FactBase) : List FactId → Prop
  | nil : Ordered b []
  | snoc {listed : List FactId} {id : FactId} {fact : Fact} (h : Ordered b listed)
      (hnew : id ∉ listed) (hget : b.get? id = some fact)
      (hparents : ∀ parent ∈ fact.parents, parent ∈ listed) : Ordered b (listed ++ [id])

/-- What listing facts with numbers below `bound` makes of a listing. -/
structure Extends (b : FactBase) (bound : Nat) (listed listed' : List FactId) : Prop where
  ordered : b.Ordered listed'
  kept : ∀ id ∈ listed, id ∈ listed'
  added : ∀ id ∈ listed', id ∈ listed ∨ id < bound

namespace Extends

theorem refl {b : FactBase} {listed : List FactId} (h : b.Ordered listed) (bound : Nat) :
    b.Extends bound listed listed :=
  ⟨h, fun _ hid => hid, fun _ hid => Or.inl hid⟩

theorem trans {b : FactBase} {bound : Nat} {l₁ l₂ l₃ : List FactId} (h₁ : b.Extends bound l₁ l₂)
    (h₂ : b.Extends bound l₂ l₃) : b.Extends bound l₁ l₃ where
  ordered := h₂.ordered
  kept id hid := h₂.kept id (h₁.kept id hid)
  added id hid := (h₂.added id hid).elim (h₁.added id) Or.inr

theorem mono {b : FactBase} {bound bound' : Nat} {l₁ l₂ : List FactId}
    (h : b.Extends bound l₁ l₂) (hle : bound ≤ bound') : b.Extends bound' l₁ l₂ where
  ordered := h.ordered
  kept := h.kept
  added id hid := (h.added id hid).imp_right (Nat.lt_of_lt_of_le · hle)

end Extends

/-- Parents come before their facts in number. -/
theorem Grounded.parent_lt {b : FactBase} (hb : b.Grounded) {id : FactId} {fact : Fact}
    (hget : b.get? id = some fact) :
    ∀ parent ∈ fact.parents, parent < id ∧ ∃ p, b.get? parent = some p := by
  intro parent hparent
  cases hb hget with
  | hypothesis | assumption => cases hparent
  | inference hm =>
    obtain ⟨_, hlt, p, hp, _⟩ := hm.known parent hparent
    exact ⟨hlt, p, hp⟩

section Listing

variable {b : FactBase}

/-- Lists facts in turn, if listing each of them does what it should. -/
private theorem extends_foldl {list : List FactId → FactId → List FactId} {bound : Nat}
    {ids : List FactId}
    (h : ∀ id ∈ ids, ∀ listed, b.Ordered listed →
      b.Extends bound listed (list listed id) ∧ id ∈ list listed id) :
    ∀ {listed : List FactId}, b.Ordered listed →
      b.Extends bound listed (ids.foldl list listed) ∧
        ∀ id ∈ ids, id ∈ ids.foldl list listed := by
  induction ids with
  | nil => exact fun hlisted => ⟨.refl hlisted bound, fun _ hid => absurd hid List.not_mem_nil⟩
  | cons id ids ih =>
    intro listed hlisted
    obtain ⟨hfirst, hid⟩ := h id List.mem_cons_self listed hlisted
    obtain ⟨hrest, hids⟩ :=
      ih (fun id' hid' => h id' (List.mem_cons_of_mem id hid')) hfirst.ordered
    refine ⟨hfirst.trans hrest, fun id' hid' => ?_⟩
    rcases List.mem_cons.mp hid' with rfl | hid'
    · exact hrest.kept _ hid
    · exact hids id' hid'

/-- By induction on the bound, which stays above the numbers of the facts to be listed. -/
theorem Grounded.extends_list (hb : b.Grounded) (bound : Nat) :
    ∀ {id : FactId} {fact : Fact}, id < bound → b.get? id = some fact →
      ∀ listed, b.Ordered listed →
        b.Extends (id + 1) listed (b.list bound listed id) ∧ id ∈ b.list bound listed id := by
  induction bound with
  | zero => exact fun hid => absurd hid (Nat.not_lt_zero _)
  | succ bound ih =>
    intro id fact hid hget listed hlisted
    rw [list]
    split
    · next hmem => exact ⟨.refl hlisted _, List.contains_iff_mem.mp hmem⟩
    · next hnew =>
      rw [hget]
      have hparents : ∀ parent ∈ fact.parents, ∀ listed, b.Ordered listed →
          b.Extends id listed (b.list bound listed parent) ∧
            parent ∈ b.list bound listed parent := by
        intro parent hparent listed hlisted
        obtain ⟨hlt, p, hp⟩ := hb.parent_lt hget parent hparent
        obtain ⟨hext, hmem⟩ :=
          ih (Nat.lt_of_lt_of_le hlt (Nat.le_of_lt_succ hid)) hp listed hlisted
        exact ⟨hext.mono hlt, hmem⟩
      obtain ⟨hext, hmem⟩ := extends_foldl hparents hlisted
      -- the parents are below the fact, so listing them has not listed it
      have hfresh : id ∉ fact.parents.foldl (b.list bound) listed := fun h =>
        (hext.added id h).elim (fun h => hnew (List.contains_iff_mem.mpr h)) (Nat.lt_irrefl id)
      refine ⟨⟨.snoc hext.ordered hfresh hget hmem, ?_, ?_⟩, List.mem_concat_self⟩
      · exact fun q hq => List.mem_append_left _ (hext.kept q hq)
      · intro q hq
        rcases List.mem_append.mp hq with hq | hq
        · exact (hext.added q hq).imp_right Nat.lt_succ_of_lt
        · rw [List.mem_singleton.mp hq]
          exact Or.inr (Nat.lt_succ_self id)

/-- A number under which no fact stands is passed over. -/
theorem list_of_get?_eq_none (bound : Nat) (listed : List FactId) {id : FactId}
    (h : b.get? id = none) : b.list bound listed id = listed := by
  cases bound with
  | zero => rfl
  | succ bound =>
    rw [list, h]
    split <;> rfl

theorem Grounded.ordered_list (hb : b.Grounded) {listed : List FactId} (h : b.Ordered listed)
    (id : FactId) : b.Ordered (b.list b.size listed id) := by
  cases hget : b.get? id with
  | none => rwa [list_of_get?_eq_none b.size listed hget]
  | some fact => exact (hb.extends_list b.size (lt_size_of_get? hget) hget listed h).1.ordered

theorem Grounded.mem_list (hb : b.Grounded) {listed : List FactId} (h : b.Ordered listed)
    {id : FactId} {fact : Fact} (hget : b.get? id = some fact) :
    id ∈ b.list b.size listed id :=
  (hb.extends_list b.size (lt_size_of_get? hget) hget listed h).2

/-- Facts listed in turn are all listed in the end. -/
theorem Grounded.mem_foldl_list (hb : b.Grounded) {ids : List FactId}
    (hids : ∀ id ∈ ids, ∃ fact, b.get? id = some fact) :
    ∀ id ∈ ids, id ∈ ids.foldl (b.list b.size) [] := by
  have hlist : ∀ id ∈ ids, ∀ listed, b.Ordered listed →
      b.Extends b.size listed (b.list b.size listed id) ∧ id ∈ b.list b.size listed id := by
    intro id hid listed hlisted
    obtain ⟨fact, hget⟩ := hids id hid
    have hlt := lt_size_of_get? hget
    obtain ⟨hext, hmem⟩ := hb.extends_list b.size hlt hget listed hlisted
    exact ⟨hext.mono hlt, hmem⟩
  exact (extends_foldl hlist .nil).2

theorem Grounded.ordered_foldl_list (hb : b.Grounded) (ids : List FactId) :
    b.Ordered (ids.foldl (b.list b.size) []) :=
  List.foldlRecOn (motive := b.Ordered) ids _ .nil fun _ h id _ => hb.ordered_list h id

end Listing

/-! ## Lines -/

theorem origin_of_cite_eq_hypothesis {listed : List FactId} {origin : Origin}
    (h : cite listed origin = .hypothesis) : origin = .hypothesis := by
  cases origin with
  | hypothesis => rfl
  | assumption | inference => cases h

theorem origin_of_cite_eq_assumption {listed : List FactId} {origin : Origin}
    (h : cite listed origin = .assumption) : origin = .assumption := by
  cases origin with
  | assumption => rfl
  | hypothesis | inference => cases h

namespace Ordered

variable {b : FactBase} {listed : List FactId}

theorem nodup (h : b.Ordered listed) : listed.Nodup := by
  induction h with
  | nil => exact List.nodup_nil
  | snoc _ hnew _ _ ih =>
    rw [← List.concat_eq_append]
    exact List.Nodup.concat hnew ih

theorem exists_get? (h : b.Ordered listed) : ∀ id ∈ listed, ∃ fact, b.get? id = some fact := by
  induction h with
  | nil => exact fun _ hid => absurd hid List.not_mem_nil
  | snoc _ _ hget _ ih =>
    intro id hid
    rcases List.mem_append.mp hid with hid | hid
    · exact ih id hid
    · rw [List.mem_singleton.mp hid]
      exact ⟨_, hget⟩

theorem lineNumber_of_getElem? (h : b.Ordered listed) {i : Nat} {id : FactId}
    (hi : listed[i]? = some id) : lineNumber listed id = i + 1 := by
  obtain ⟨hlt, rfl⟩ := List.getElem?_eq_some_iff.mp hi
  rw [lineNumber, h.nodup.idxOf_getElem i hlt]

/-- A fact was inferred from facts on earlier lines. -/
theorem lineNumber_lt (h : b.Ordered listed) {id : FactId} (hid : id ∈ listed) {fact : Fact}
    (hget : b.get? id = some fact) {parent : FactId} (hparent : parent ∈ fact.parents) :
    parent ∈ listed ∧ lineNumber listed parent < lineNumber listed id := by
  induction h with
  | nil => cases hid
  | @snoc listed last fact' _ hnew hlast hparents ih =>
    unfold lineNumber
    by_cases hold : id ∈ listed
    · obtain ⟨hmem, hlt⟩ := ih hold
      rw [List.idxOf_append_of_mem hmem, List.idxOf_append_of_mem hold]
      exact ⟨List.mem_append_left _ hmem, hlt⟩
    · obtain rfl : id = last := by
        rcases List.mem_append.mp hid with hid | hid
        · exact absurd hid hold
        · exact List.mem_singleton.mp hid
      rw [hget] at hlast
      cases hlast
      have hmem := hparents parent hparent
      have hlt := List.idxOf_lt_length_of_mem hmem
      rw [List.idxOf_append_of_mem hmem, List.idxOf_append_of_notMem hold]
      exact ⟨List.mem_append_left _ hmem, by omega⟩

end Ordered

private theorem getElem?_filterMap_of_isSome {α β : Type} (f : α → Option β) (l : List α)
    (h : ∀ x ∈ l, (f x).isSome = true) (i : Nat) : (l.filterMap f)[i]? = l[i]?.bind f := by
  induction l generalizing i with
  | nil => simp
  | cons x l ih =>
    obtain ⟨y, hy⟩ := Option.isSome_iff_exists.mp (h x List.mem_cons_self)
    rw [List.filterMap_cons_some hy]
    cases i with
    | zero => simp [hy]
    | succ i => simpa using ih (fun x' hx' => h x' (List.mem_cons_of_mem x hx')) i

/-- Line by line a proof is its listing. -/
theorem Ordered.getElem?_lines {b : FactBase} {listed : List FactId} (h : b.Ordered listed)
    {i : Nat} {line : Line} :
    (listed.filterMap (b.toLine listed))[i]? = some line ↔
      ∃ id fact, listed[i]? = some id ∧ b.get? id = some fact ∧
        line = ⟨i + 1, fact.formula, cite listed fact.origin⟩ := by
  have hlines : ∀ id ∈ listed, (b.toLine listed id).isSome = true := by
    intro id hid
    obtain ⟨fact, hget⟩ := h.exists_get? id hid
    rw [toLine, hget]
    rfl
  simp only [getElem?_filterMap_of_isSome _ _ hlines, Option.bind_eq_some_iff, toLine,
    Option.map_eq_some_iff]
  constructor
  · rintro ⟨id, hi, fact, hget, rfl⟩
    exact ⟨id, fact, hi, hget, by rw [h.lineNumber_of_getElem? hi]⟩
  · rintro ⟨id, fact, hi, hget, rfl⟩
    exact ⟨id, hi, fact, hget, by rw [h.lineNumber_of_getElem? hi]⟩

end Turnstile.FactBase
