import Turnstile.Proofs.Certificate
import Turnstile.Proofs.Limits

/-!
A proof lists what it needs and nothing else.

* `FactBase.Needs`: the facts that some facts rest on, over parents, parents of parents and so on;
* `FactBase.forall_mem_foldl_list`: a listing stays within every set that has the parents of its
  members, so it holds only what is needed. `FactBase.Ordered.mem_of_needs`: it holds all of it;
* `FactBase.foldl_list_of_no_parents`, `FactBase.prefix_foldl_list`: facts without parents are
  listed as they come, and what is listed stays in front;
* `Session.Accounts`: how the lines of a proof are to match the facts behind it;
* `proof_accounts`: every proof that is found matches them so.
-/

namespace Turnstile

namespace FactBase

/-- The facts that those in a set rest on: these themselves, and the parents of all that is
needed. -/
inductive Needs (b : FactBase) (roots : FactId → Prop) : FactId → Prop
  | root {id : FactId} (h : roots id) : Needs b roots id
  | parent {id parent : FactId} {fact : Fact} (h : Needs b roots id)
      (hget : b.get? id = some fact) (hparent : parent ∈ fact.parents) : Needs b roots parent

variable {b : FactBase}

/-! ## What a listing holds -/

private theorem forall_mem_foldl {P : FactId → Prop} {list : List FactId → FactId → List FactId}
    {ids : List FactId}
    (h : ∀ id ∈ ids, ∀ listed, (∀ i ∈ listed, P i) → ∀ i ∈ list listed id, P i)
    {listed : List FactId} (hlisted : ∀ i ∈ listed, P i) : ∀ i ∈ ids.foldl list listed, P i :=
  List.foldlRecOn (motive := fun listed => ∀ i ∈ listed, P i) ids list hlisted
    fun listed hlisted id hid => h id hid listed hlisted

section Closed

variable {P : FactId → Prop}
  (hclosed : ∀ {id fact parent}, P id → b.get? id = some fact → parent ∈ fact.parents → P parent)

include hclosed

theorem forall_mem_list (bound : Nat) :
    ∀ {id : FactId}, P id → ∀ listed, (∀ i ∈ listed, P i) → ∀ i ∈ b.list bound listed id, P i := by
  induction bound with
  | zero => exact fun _ _ hlisted => hlisted
  | succ bound ih =>
    intro id hid listed hlisted
    rw [list]
    split
    · exact hlisted
    · split
      · exact hlisted
      · next fact hget =>
        have hparents : ∀ i ∈ fact.parents.foldl (b.list bound) listed, P i :=
          forall_mem_foldl (fun parent hparent => ih (hclosed hid hget hparent)) hlisted
        intro i hi
        rcases List.mem_append.mp hi with hi | hi
        · exact hparents i hi
        · rwa [List.mem_singleton.mp hi]

theorem forall_mem_foldl_list (bound : Nat) {ids : List FactId} (hids : ∀ id ∈ ids, P id) :
    ∀ i ∈ ids.foldl (b.list bound) [], P i :=
  forall_mem_foldl (fun id hid => forall_mem_list hclosed bound (hids id hid))
    fun _ hi => absurd hi List.not_mem_nil

end Closed

/-- By induction over what is needed: a listing in order has the parents of all it has. -/
theorem Ordered.mem_of_needs {listed : List FactId} (h : b.Ordered listed) {roots : FactId → Prop}
    (hroots : ∀ id, roots id → id ∈ listed) {id : FactId} (hid : b.Needs roots id) :
    id ∈ listed := by
  induction hid with
  | root hroot => exact hroots _ hroot
  | parent _ hget hparent ih => exact (h.lineNumber_lt ih hget hparent).1

theorem Grounded.mem_foldl_list_iff (hb : b.Grounded) {ids : List FactId}
    (hids : ∀ id ∈ ids, ∃ fact, b.get? id = some fact) (id : FactId) :
    id ∈ ids.foldl (b.list b.size) [] ↔ b.Needs (· ∈ ids) id := by
  constructor
  · exact forall_mem_foldl_list .parent b.size (fun _ => .root) id
  · exact (hb.ordered_foldl_list ids).mem_of_needs (hb.mem_foldl_list hids)

/-! ## What comes first -/

private theorem prefix_foldl {list : List FactId → FactId → List FactId}
    (h : ∀ listed id, listed <+: list listed id) (ids listed : List FactId) :
    listed <+: ids.foldl list listed :=
  List.foldlRecOn (motive := (listed <+: ·)) ids list List.prefix_rfl
    fun listed' hprefix id _ => hprefix.trans (h listed' id)

theorem prefix_list (b : FactBase) (bound : Nat) :
    ∀ (listed : List FactId) (id : FactId), listed <+: b.list bound listed id := by
  induction bound with
  | zero => exact fun _ _ => List.prefix_rfl
  | succ bound ih =>
    intro listed id
    rw [list]
    split
    · exact List.prefix_rfl
    · split
      · exact List.prefix_rfl
      · next fact _ =>
        exact (prefix_foldl ih fact.parents listed).trans (List.prefix_append _ [id])

theorem prefix_foldl_list (b : FactBase) (bound : Nat) (ids listed : List FactId) :
    listed <+: ids.foldl (b.list bound) listed :=
  prefix_foldl (b.prefix_list bound) ids listed

/-- Facts without parents, no two the same, are listed one after another. -/
theorem foldl_list_of_no_parents (bound : Nat) {ids listed : List FactId}
    (hids : ∀ id ∈ ids, ∃ fact, b.get? id = some fact ∧ fact.parents = [])
    (hnodup : (listed ++ ids).Nodup) : ids.foldl (b.list (bound + 1)) listed = listed ++ ids := by
  induction ids generalizing listed with
  | nil => simp
  | cons id ids ih =>
    obtain ⟨fact, hget, hparents⟩ := hids id List.mem_cons_self
    have hnew : id ∉ listed := by
      intro hmem
      exact (List.nodup_append.mp hnodup).2.2 id hmem id List.mem_cons_self rfl
    have hlist : b.list (bound + 1) listed id = listed ++ [id] := by
      rw [list, if_neg (by simpa using hnew), hget]
      simp [hparents]
    rw [List.append_cons] at hnodup ⊢
    rw [List.foldl_cons, hlist]
    exact ih (fun id' hid' => hids id' (List.mem_cons_of_mem id hid')) hnodup

theorem pairwise_live (b : FactBase) : b.live.Pairwise fun x y => x.1 < y.1 := by
  have hnumbers : (b.entries.toList.zipIdx.map Prod.snd).Pairwise (· < ·) := by
    rw [List.zipIdx_map_snd]
    exact List.pairwise_lt_range'
  refine List.pairwise_filterMap.mpr ((List.pairwise_map.mp hnumbers).imp ?_)
  rintro ⟨e, i⟩ ⟨e', j⟩ hlt x hx y hy
  simp only [Option.ite_none_right_eq_some, Option.some.injEq] at hx hy
  rw [← hx.2, ← hy.2]
  exact hlt

end FactBase

namespace Session

variable {s : Session}

/-- A hypothesis in use stands under the number. -/
def IsLiveHypothesis (s : Session) (id : FactId) : Prop :=
  ∃ fact, s.base.get? id = some fact ∧ s.base.isLive id = true ∧ fact.origin = .hypothesis

/-- What a proof of a fact has to lead to: that fact, the hypotheses in use, and the facts that hold
the assumptions. -/
def IsRoot (s : Session) (goal id : FactId) : Prop :=
  s.IsLiveHypothesis id ∨ (∃ a ∈ s.assumptions, a.fact = some id) ∨ id = goal

/-- How a proof accounts for the facts behind it. Its lines are those of the given facts in their
order, and the facts are the ones needed, each given once. -/
structure Accounts (s : Session) (goal : FactId) (p : Proof) (facts : List FactId) : Prop where
  once : facts.Nodup
  needed : ∀ id, id ∈ facts ↔ s.base.Needs (s.IsRoot goal) id
  length : p.lines.length = facts.length
  line : ∀ {i : Nat} {id : FactId}, facts[i]? = some id → ∃ fact, s.base.get? id = some fact ∧
    p.lines[i]? = some ⟨i + 1, fact.formula, FactBase.cite facts fact.origin⟩
  parents_first : ∀ {i : Nat} {id : FactId} {fact : Fact}, facts[i]? = some id →
    s.base.get? id = some fact → ∀ parent ∈ fact.parents, ∃ j < i, facts[j]? = some parent
  hypotheses_first : ∃ hypotheses : List FactId, hypotheses <+: facts ∧
    hypotheses.Pairwise (· < ·) ∧ ∀ id, id ∈ hypotheses ↔ s.IsLiveHypothesis id
  goal_line : ∃ i : Nat, p.goal = i + 1 ∧ facts[i]? = some goal

/-- The hypotheses in use, in the order of their numbers. -/
def liveHypotheses (s : Session) : List FactId :=
  (s.base.live.filter fun (_, fact) => fact.isHypothesis).map (·.1)

theorem mem_liveHypotheses {id : FactId} : id ∈ s.liveHypotheses ↔ s.IsLiveHypothesis id := by
  simp only [liveHypotheses, List.mem_map, List.mem_filter, Prod.exists, FactBase.mem_live,
    Fact.isHypothesis, beq_iff_eq]
  constructor
  · rintro ⟨id, fact, ⟨⟨hget, hlive⟩, horigin⟩, rfl⟩
    exact ⟨fact, hget, hlive, horigin⟩
  · rintro ⟨fact, hget, hlive, horigin⟩
    exact ⟨id, fact, ⟨⟨hget, hlive⟩, horigin⟩, rfl⟩

theorem pairwise_liveHypotheses (s : Session) : s.liveHypotheses.Pairwise (· < ·) :=
  List.pairwise_map.mpr (s.base.pairwise_live.filter _)

/-- The facts that a listing asks for, in the order in which it does. -/
def roots (s : Session) (goal : FactId) : List FactId :=
  s.liveHypotheses ++ s.assumptions.filterMap (·.fact) ++ [goal]

theorem listing_eq_foldl (s : Session) (goal : FactId) :
    s.listing goal = (s.roots goal).foldl (s.base.list s.base.size) [] := rfl

theorem mem_roots {goal id : FactId} : id ∈ s.roots goal ↔ s.IsRoot goal id := by
  simp only [roots, List.mem_append, mem_liveHypotheses, List.mem_filterMap, List.mem_singleton,
    or_assoc, IsRoot]

theorem liveHypotheses_prefix {goal : FactId} {fact : Fact}
    (hgoal : s.base.get? goal = some fact) : s.liveHypotheses <+: s.listing goal := by
  -- there is a fact, so the bound leaves room for those without parents
  obtain ⟨bound, hbound⟩ := Nat.exists_eq_add_one_of_ne_zero
    (Nat.ne_zero_of_lt (FactBase.lt_size_of_get? hgoal))
  have hfirst : s.liveHypotheses.foldl (s.base.list s.base.size) [] = s.liveHypotheses := by
    rw [hbound]
    refine FactBase.foldl_list_of_no_parents bound ?_ ?_
    · intro id hid
      obtain ⟨fact, hget, _, horigin⟩ := mem_liveHypotheses.mp hid
      exact ⟨fact, hget, by rw [Fact.parents, horigin]⟩
    · exact s.pairwise_liveHypotheses.imp Nat.ne_of_lt
  rw [listing_eq_foldl, roots, List.append_assoc, List.foldl_append, hfirst]
  exact FactBase.prefix_foldl_list _ _ _ _

section Found

variable (hs : s.Reachable) {goal : FactId} {fact : Fact} (hgoal : s.base.get? goal = some fact)

include hs hgoal

theorem exists_get?_of_mem_roots : ∀ id ∈ s.roots goal, ∃ fact, s.base.get? id = some fact := by
  intro id hid
  rcases mem_roots.mp hid with ⟨fact, hget, _⟩ | ⟨a, ha, hfact⟩ | rfl
  · exact ⟨fact, hget⟩
  · exact FactBase.exists_get?_of_lt (hs.lt_size_of_assumption a ha id hfact)
  · exact ⟨fact, hgoal⟩

theorem mem_listing_iff (id : FactId) :
    id ∈ s.listing goal ↔ s.base.Needs (s.IsRoot goal) id := by
  have hroots : (· ∈ s.roots goal) = s.IsRoot goal := funext fun _ => propext mem_roots
  rw [listing_eq_foldl, ← hroots]
  exact hs.grounded.mem_foldl_list_iff (exists_get?_of_mem_roots hs hgoal) id

theorem accounts_proofOf : s.Accounts goal (s.proofOf goal) (s.listing goal) where
  once := (ordered_listing hs.grounded goal).nodup
  needed := mem_listing_iff hs hgoal
  length := by
    refine List.filterMap_length_eq_length.mpr fun id hid => ?_
    obtain ⟨fact, hget⟩ := (ordered_listing hs.grounded goal).exists_get? id hid
    rw [FactBase.toLine, hget]
    rfl
  line {i id} hi := by
    obtain ⟨fact, hget⟩ :=
      (ordered_listing hs.grounded goal).exists_get? id (List.mem_of_getElem? hi)
    exact ⟨fact, hget, (getElem?_proofOf hs.grounded goal).mpr ⟨id, fact, hi, hget, rfl⟩⟩
  parents_first {i id fact} hi hget parent hparent := by
    have hordered := ordered_listing hs.grounded goal
    obtain ⟨hmem, hlt⟩ := hordered.lineNumber_lt (List.mem_of_getElem? hi) hget hparent
    rw [hordered.lineNumber_of_getElem? hi] at hlt
    exact ⟨_, Nat.lt_of_succ_lt_succ hlt, List.getElem?_idxOf hmem⟩
  hypotheses_first := ⟨s.liveHypotheses, liveHypotheses_prefix hgoal, s.pairwise_liveHypotheses,
    fun _ => mem_liveHypotheses⟩
  goal_line := ⟨_, rfl, List.getElem?_idxOf (mem_listing hs.grounded goal hgoal)⟩

end Found

/-- Every proof found from hypotheses is that of a fact like what is left of the goal once the
assumptions are taken off, and accounts for what this fact, the hypotheses in use and the facts that
hold the assumptions rest on. -/
theorem proof_accounts (config : Config) (hypotheses : List Formula) (goal : Formula) {t : Session}
    {proof : Proof}
    (h : ((ofHypotheses config hypotheses).value.prove goal).value = (t, .proved proof)) :
    proof.assumptions = t.assumptions ∧
      ∃ rest id facts, Peels goal proof.assumptions rest ∧ t.base.find? rest = some id ∧
        t.Accounts id proof facts := by
  have hproves : ProvesTo goal (ofHypotheses config hypotheses).value t (.proved proof) := by
    have hends := provesTo_prove goal (ofHypotheses config hypotheses).value
    rw [h] at hends
    exact hends
  have hreachable := (reachable_ofHypotheses config hypotheses).trans hproves.reaches
  obtain ⟨assumed, rest, id, hassumptions, hpeels, hfind, rfl⟩ := hproves.exists_peels
  rw [assumptions_ofHypotheses, List.nil_append] at hassumptions
  obtain ⟨fact, hget, _⟩ := FactBase.find?_eq_some hfind
  refine ⟨rfl, rest, id, t.listing id, ?_, hfind, accounts_proofOf hreachable hget⟩
  rw [← hassumptions] at hpeels
  exact hpeels

/-- From `A ∧ B`, `A → (C → B)` is proved by assuming `A` and then `C`. The first assumption is held
by a fact inferred before, so the proof lists it with what it was inferred from. -/
theorem proof_accounts_inferred_assumption :
    ∃ t proof, ((ofHypotheses .standard [.conj (.var "A") (.var "B")]).value.prove
        (.imp (.var "A") (.imp (.var "C") (.var "B")))).value = (t, .proved proof) ∧
      t.assumptions.map (·.fact) = [some 1, some 4] ∧
      ∃ rest id facts,
        Peels (.imp (.var "A") (.imp (.var "C") (.var "B"))) proof.assumptions rest ∧
        t.base.find? rest = some id ∧ t.Accounts id proof facts := by
  obtain ⟨proof, hproved⟩ : ∃ proof,
      ((ofHypotheses .standard [.conj (.var "A") (.var "B")]).value.prove
        (.imp (.var "A") (.imp (.var "C") (.var "B")))).value.2 = .proved proof :=
    Outcome.isProved_iff.mp (by decide +kernel)
  refine ⟨_, proof, Prod.ext rfl hproved, by decide +kernel, ?_⟩
  exact (proof_accounts _ _ _ (Prod.ext rfl hproved)).2

end Session

end Turnstile
