import Turnstile.Rule
import Turnstile.Proofs.Alike

/-!
Being alike, said without the comparison: two formulas are alike exactly when one is the other with
the operands of some conjunctions and disjunctions exchanged and any truths stored at the leaves.

* `rearrange`: exchanges the operands at the nodes of a set, all at once. Nodes are named by the way
  down to them (`Position`), as it is before anything is exchanged;
* `alike_rearrange`, `exists_rearrange`: the two directions, each by induction on the formula;
* `alike_iff_rearranged`: the two together, with what follows for comparing formulas.
-/

namespace Turnstile

inductive Side where
  | left | right
  deriving DecidableEq, Repr

/-- The way from the root of a formula down to one of its nodes. -/
abbrev Position := List Side

/-- A value at the root, and those at the nodes of the left and the right operand. -/
def Position.join {α : Type} (root : α) (left right : Position → α) : Position → α
  | [] => root
  | .left :: p => left p
  | .right :: p => right p

namespace Formula

/-- The part of the formula at a position, if there is one. -/
def at? : Formula → Position → Option Formula
  | f, [] => some f
  | .compound _ _ l _, .left :: p => l.at? p
  | .compound _ _ _ r, .right :: p => r.at? p
  | .atom .., _ :: _ => none

/-- A conjunction or disjunction, negated or not, stands at the position. -/
def isJunctionAt (f : Formula) (p : Position) : Bool := (f.at? p).any isAnyJunction

/-- Exchanges the operands of the nodes in a set, and stores a truth of choice at every leaf. -/
def rearrange (swapped : Position → Bool) (truths : Position → Truth) : Formula → Formula
  | .atom name negated _ => .atom name negated (truths [])
  | .compound op negated l r =>
    let l' := l.rearrange (fun p => swapped (.left :: p)) fun p => truths (.left :: p)
    let r' := r.rearrange (fun p => swapped (.right :: p)) fun p => truths (.right :: p)
    if swapped [] then .compound op negated r' l' else .compound op negated l' r'

@[simp] theorem rearrange_join (op : Connective) (negated root : Bool) (l r : Formula)
    (swappedL swappedR : Position → Bool) (truth : Truth) (truthsL truthsR : Position → Truth) :
    (compound op negated l r).rearrange (Position.join root swappedL swappedR)
        (Position.join truth truthsL truthsR) =
      if root then
        compound op negated (r.rearrange swappedR truthsR) (l.rearrange swappedL truthsL)
      else compound op negated (l.rearrange swappedL truthsL) (r.rearrange swappedR truthsR) := rfl

/-- The nodes of the set are conjunctions and disjunctions in the formula. -/
def OnlyJunctions (f : Formula) (swapped : Position → Bool) : Prop :=
  ∀ p, swapped p = true → f.isJunctionAt p = true

theorem OnlyJunctions.join {op : Connective} {l r : Formula} {swappedL swappedR : Position → Bool}
    (hl : l.OnlyJunctions swappedL) (hr : r.OnlyJunctions swappedR) {root : Bool}
    (hroot : root = true → op.commutes = true) (negated : Bool) :
    (compound op negated l r).OnlyJunctions (Position.join root swappedL swappedR) := by
  intro p hp
  match p with
  | [] => exact hroot hp
  | .left :: p => exact hl p hp
  | .right :: p => exact hr p hp

/-- Where only conjunctions and disjunctions are touched, the result is like the formula. -/
theorem alike_rearrange {f : Formula} {swapped : Position → Bool} (h : f.OnlyJunctions swapped)
    (truths : Position → Truth) : f.alike (f.rearrange swapped truths) = true := by
  induction f generalizing swapped truths with
  | atom name negated truth => exact alike_atom_iff.mpr ⟨truths [], rfl⟩
  | compound op negated l r ihl ihr =>
    have hl := ihl (fun p => h (.left :: p)) fun p => truths (.left :: p)
    have hr := ihr (fun p => h (.right :: p)) fun p => truths (.right :: p)
    rw [rearrange]
    cases hroot : swapped [] with
    | false => exact alike_compound hl hr
    | true => exact alike_swap (h [] hroot) hl hr

/-- The nodes to exchange are those where the comparison pairs the operands crosswise. -/
theorem exists_rearrange {f g : Formula} (h : f.alike g = true) :
    ∃ swapped truths, f.OnlyJunctions swapped ∧ g = f.rearrange swapped truths := by
  induction f generalizing g with
  | atom name negated truth =>
    obtain ⟨truth', rfl⟩ := alike_atom_iff.mp h
    exact ⟨fun _ => false, fun _ => truth', fun _ hp => (Bool.false_ne_true hp).elim, rfl⟩
  | compound op negated l r ihl ihr =>
    obtain ⟨l', r', rfl, ⟨hl, hr⟩ | ⟨hop, hl, hr⟩⟩ := alike_compound_iff.mp h
    · obtain ⟨swappedL, truthsL, honlyL, rfl⟩ := ihl hl
      obtain ⟨swappedR, truthsR, honlyR, rfl⟩ := ihr hr
      refine ⟨Position.join false swappedL swappedR, Position.join none truthsL truthsR, ?_,
        by simp⟩
      exact honlyL.join honlyR (fun hroot => (Bool.false_ne_true hroot).elim) negated
    · obtain ⟨swappedL, truthsL, honlyL, rfl⟩ := ihl hl
      obtain ⟨swappedR, truthsR, honlyR, rfl⟩ := ihr hr
      refine ⟨Position.join true swappedL swappedR, Position.join none truthsL truthsR, ?_,
        by simp⟩
      exact honlyL.join honlyR (fun _ => hop) negated

theorem equivalence_alike : Equivalence fun f g : Formula => f.alike g = true :=
  ⟨alike_refl, alike_symm, alike_trans⟩

theorem equivalence_sameEntry : Equivalence fun f g : Formula => f.sameEntry g = true :=
  ⟨sameEntry_refl, sameEntry_symm, sameEntry_trans⟩

theorem alike_negate_negate (f g : Formula) : f.negate.alike g.negate = f.alike g := by
  refine Bool.eq_iff_iff.mpr ⟨fun h => ?_, alike_negate⟩
  have hback := alike_negate h
  rwa [negate_negate, negate_negate] at hback

/-- Formulas are alike exactly if one can be had from the other by exchanging the operands of some
set of conjunctions and disjunctions and changing stored truths. So likeness and sharing an entry
are equivalences, negating both sides makes no difference, and formulas that are alike are true
under the same valuations. -/
theorem alike_iff_rearranged :
    (∀ f g : Formula, f.alike g = true ↔
      ∃ swapped truths, f.OnlyJunctions swapped ∧ g = f.rearrange swapped truths) ∧
    (Equivalence fun f g : Formula => f.alike g = true) ∧
    (Equivalence fun f g : Formula => f.sameEntry g = true) ∧
    (∀ f g : Formula, f.alike g = true ↔ f.negate.alike g.negate = true) ∧
    (∀ (f g : Formula) (v : Valuation), f.alike g = true → f.eval v = g.eval v) := by
  refine ⟨fun f g => ⟨exists_rearrange, ?_⟩, equivalence_alike, equivalence_sameEntry, ?_, ?_⟩
  · rintro ⟨swapped, truths, honly, rfl⟩
    exact alike_rearrange honly truths
  · intro f g
    rw [alike_negate_negate]
  · exact fun f g v h => eval_eq_of_alike v h

/-- Both junctions below an implication are turned round, one inside the other, and a truth is
stored. -/
theorem alike_iff_rearranged_nested :
    let f : Formula :=
      .imp (.disj (.conj (.var "A") (.var "B")) (.var "C")) (.conj (.var "C") (.var "A"))
    let g : Formula :=
      .imp (.disj (.var "C") (.conj (.var "B") (.atom "A" false (some true))))
        (.conj (.var "C") (.var "A"))
    f.alike g = true ∧
      (∃ swapped truths, f.OnlyJunctions swapped ∧ g = f.rearrange swapped truths) ∧
      ∀ v, f.eval v = g.eval v := by
  intro f g
  have halike : f.alike g = true := by decide
  obtain ⟨hiff, _, _, _, heval⟩ := alike_iff_rearranged
  exact ⟨halike, (hiff f g).mp halike, fun v => heval f g v halike⟩

end Formula

end Turnstile
