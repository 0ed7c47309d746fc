import Turnstile.Proofs.Operations

/-!
Keys only save time. A `Ledger` keeps its facts in a plain list, has no keys, and goes through all
facts in order to find one that shares an entry. Whatever is done to both, and whatever functions
the keys are mixed with, a store of facts and a ledger hold the same and answer the same.

* `contents`: what a store holds, as a ledger;
* `contents_push`, `contents_prune`, `contents_setTruth`: each operation on a store is that on the
  ledger, with the same result and the same reports. Only `holder?_contents` looks at buckets;
* `contents_operateAll`: so it is for a run of operations;
* `buckets_agree_with_scan`: what comes of it for stores that start empty.
-/

namespace Turnstile

/-- Facts in a plain list, with what is known of the atoms. -/
structure Ledger where
  entries : List Entry
  atoms : AtomTable
  deriving DecidableEq, Repr

namespace Ledger

def empty : Ledger := ⟨[], []⟩

/-- The first fact whose entry a formula shares. -/
def holder? (l : Ledger) (f : Formula) : Option FactId :=
  l.entries.findIdx? fun e => e.fact.formula.sameEntry f

def contains (l : Ledger) (f : Formula) : Bool := (l.holder? f).isSome

def find? (l : Ledger) (f : Formula) : Option FactId :=
  (l.holder? f).filter fun id => l.entries[id]?.any fun e => e.live && e.fact.formula.alike f

/-- What there is to report when a formula is turned away for a stored one. -/
def objections (l : Ledger) (f : Formula) : Option Formula → Array Event
  | some (.atom name negated truth) =>
    let known : Formula := .atom name negated truth
    if known.alike f then #[] else #[.contradicted f known name (l.atoms.get name)]
  | _ => #[]

def push (l : Ledger) (fact : Fact) : Logged (Ledger × Option FactId) :=
  match l.holder? fact.formula with
  | some id => ⟨(l, none), l.objections fact.formula (l.entries[id]?.map fun e => e.fact.formula)⟩
  | none => do
    let atoms ← l.atoms.learn fact.formula
    return (⟨l.entries ++ [⟨fact, true⟩], atoms⟩, some l.entries.length)

def setTruth (l : Ledger) (name : String) (truth : Truth) : Logged Ledger := do
  let atoms ← l.atoms.set name truth
  return { l with atoms := atoms }

def trivial (l : Ledger) : List Formula :=
  (l.entries.filter fun e => e.live && e.fact.formula.isTrivial).map fun e => e.fact.formula

def prune (l : Ledger) : Logged (Ledger × Nat) :=
  ⟨({ l with entries := l.entries.map Entry.prune }, l.trivial.length),
    (l.trivial.map Event.pruned).toArray⟩

def operate (l : Ledger) : Operation → Ledger
  | .push fact => (l.push fact).value.1
  | .prune => l.prune.value.1
  | .setTruth name truth => (l.setTruth name truth).value

def operateAll (l : Ledger) (ops : List Operation) : Ledger := ops.foldl operate l

end Ledger

namespace FactBase

def contents (b : FactBase) : Ledger := ⟨b.entries.toList, b.atoms⟩

/-! ## Looking up -/

private theorem find?_range_eq_findIdx? {α : Type} (xs : Array α) (p : α → Bool) :
    ((List.range xs.size).find? fun i => xs[i]?.any p) = xs.toList.findIdx? p := by
  refine Option.ext fun i => ?_
  rw [List.find?_range_eq_some, List.findIdx?_eq_some_iff_getElem]
  constructor
  · rintro ⟨hi, hmem, hfirst⟩
    have hlt : i < xs.size := List.mem_range.mp hmem
    refine ⟨hlt, by simpa [hlt] using hi, fun j hj => ?_⟩
    have hjlt : j < xs.size := Nat.lt_trans hj hlt
    simpa [hjlt] using hfirst j hj
  · rintro ⟨hlt, hi, hfirst⟩
    have hlt : i < xs.size := hlt
    refine ⟨by simpa [hlt] using hi, List.mem_range.mpr hlt, fun j hj => ?_⟩
    have hjlt : j < xs.size := Nat.lt_trans hj hlt
    simpa [hjlt] using hfirst j hj

theorem holder?_contents (b : FactBase) (f : Formula) : b.contents.holder? f = b.holder? f := by
  rw [holder?_eq_find?]
  exact (find?_range_eq_findIdx? b.entries _).symm

theorem contains_contents (b : FactBase) (f : Formula) :
    b.contents.contains f = b.contains f := by
  rw [Ledger.contains, holder?_contents]
  rfl

theorem find?_contents (b : FactBase) (f : Formula) : b.contents.find? f = b.find? f := by
  rw [Ledger.find?, holder?_contents, find?]
  simp only [contents, Array.getElem?_toList]

/-! ## One operation -/

theorem objections_contents (b : FactBase) (id : FactId) (f : Formula) :
    b.contents.objections f (b.contents.entries[id]?.map fun e => e.fact.formula) =
      b.objections id f := by
  simp only [contents, Array.getElem?_toList, objections, get?]
  cases b.entries[id]? with
  | none => rfl
  | some e =>
    obtain ⟨⟨formula, origin⟩, live⟩ := e
    cases formula <;> rfl

theorem contents_push (b : FactBase) (fact : Fact) :
    Prod.map contents id <$> b.push fact = b.contents.push fact := by
  unfold push Ledger.push
  rw [holder?_contents]
  cases b.holder? fact.formula with
  | some i => exact Logged.ext rfl (by simp [objections_contents])
  | none => exact Logged.ext (by simp [contents, append, size]) (by simp [contents])

theorem contents_setTruth (b : FactBase) (name : String) (truth : Truth) :
    contents <$> b.setTruth name truth = b.contents.setTruth name truth :=
  Logged.ext rfl (by simp [setTruth, Ledger.setTruth, contents])

theorem trivial_contents (b : FactBase) : b.contents.trivial = b.trivial := by
  unfold Ledger.trivial trivial live contents
  generalize b.entries.toList = entries
  generalize 0 = start
  induction entries generalizing start with
  | nil => rfl
  | cons e entries ih =>
    rw [List.zipIdx_cons]
    cases hlive : e.live <;> cases htrivial : e.fact.formula.isTrivial <;>
      simp [hlive, htrivial, ih (start + 1)]

theorem contents_prune (b : FactBase) : Prod.map contents id <$> b.prune = b.contents.prune := by
  unfold prune Ledger.prune
  rw [trivial_contents]
  exact Logged.ext (by simp [contents]) (by simp)

theorem contents_operate (b : FactBase) (op : Operation) :
    (b.operate op).contents = b.contents.operate op := by
  cases op with
  | push fact => rw [Ledger.operate, ← contents_push]; rfl
  | prune => rw [Ledger.operate, ← contents_prune]; rfl
  | setTruth name truth => rw [Ledger.operate, ← contents_setTruth]; rfl

/-! ## Many operations -/

theorem contents_operateAll (b : FactBase) (ops : List Operation) :
    (b.operateAll ops).contents = b.contents.operateAll ops :=
  (List.foldl_hom contents fun b op => (contents_operate b op).symm).symm

/-- Formulas that share an entry have the same key, whatever keys are mixed with. So after any
operations on an empty store it holds the same facts, with the same truths of atoms, as a ledger
after the same operations; and what is added, looked up or pruned next has the same result, is
reported the same, and leaves the two alike. -/
theorem buckets_agree_with_scan (d : Digest) :
    (∀ f g : Formula, f.sameEntry g = true → f.entryKey d = g.entryKey d) ∧
    ∀ ops : List Operation,
      let b := (emptyWith d).operateAll ops
      let l := Ledger.empty.operateAll ops
      b.contents = l ∧
      (∀ fact, Prod.map contents id <$> b.push fact = l.push fact) ∧
      (∀ f, b.contains f = l.contains f) ∧
      (∀ f, b.find? f = l.find? f) ∧
      Prod.map contents id <$> b.prune = l.prune := by
  refine ⟨fun f g => Formula.entryKey_eq_of_sameEntry d, ?_⟩
  intro ops b l
  have hsame : b.contents = l := contents_operateAll (emptyWith d) ops
  rw [← hsame]
  exact ⟨rfl, contents_push b, fun f => (contains_contents b f).symm,
    fun f => (find?_contents b f).symm, contents_prune b⟩

/-- Where all keys are equal, a store has one bucket for everything. -/
theorem buckets_agree_with_scan_colliding :
    let d : Digest := ⟨fun _ _ => 0, fun _ _ _ _ => 0⟩
    let ab : Formula := .conj (.var "A") (.var "B")
    let ba : Formula := .conj (.var "B") (.var "A")
    let ops : List Operation :=
      [.push (.hypothesis (.imp (.var "A") (.var "A"))), .push (.hypothesis ab), .prune,
        .push (.hypothesis (Formula.var "A").negate)]
    ab.sameEntry ba = true ∧ ab.entryKey .standard = ba.entryKey .standard ∧
      ((emptyWith d).operateAll ops).find? ba = some 1 ∧
      (Ledger.empty.operateAll ops).find? ba = some 1 ∧
      ((emptyWith d).operateAll ops).find? (.var "A") = none ∧
      (Ledger.empty.operateAll ops).find? (.var "A") = none := by
  intro d ab ba ops
  have hsame : ab.sameEntry ba = true := by decide
  have hfound : ((emptyWith d).operateAll ops).find? ba = some 1 := by decide +kernel
  have hother : ((emptyWith d).operateAll ops).find? (.var "A") = none := by decide +kernel
  obtain ⟨_, _, _, hfind, _⟩ := (buckets_agree_with_scan d).2 ops
  exact ⟨hsame, (buckets_agree_with_scan .standard).1 ab ba hsame, hfound,
    (hfind ba).symm.trans hfound, hother, (hfind (.var "A")).symm.trans hother⟩

end FactBase

end Turnstile
