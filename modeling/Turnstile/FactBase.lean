import Std.Data.TreeMap
import Turnstile.AtomTable
import Turnstile.Fact
import Turnstile.Formula.Digest

/-!
The store of facts. Facts are only ever added, and of formulas that share an entry only the first is
kept, so the number of a fact never changes. Trivial implications can be pruned: they still keep
their entry but are live no longer, and only live facts are found or used.

Facts are looked up by key. The buckets are a function of the facts, which the last field states.
-/

namespace Turnstile

/-- An implication, negated or not, between formulas that are alike. -/
def Formula.isTrivial : Formula → Bool
  | .compound .implies _ l r => l.alike r
  | _ => false

structure Entry where
  fact : Fact
  live : Bool
  deriving DecidableEq, Repr

/-- A trivial implication goes out of use. -/
def Entry.prune (e : Entry) : Entry := { e with live := e.live && !e.fact.formula.isTrivial }

/-- The numbers of the entries with a key, in ascending order. -/
def bucketOf (d : Digest) (entries : Array Entry) (key : UInt64) : List FactId :=
  (List.range entries.size).filter fun id =>
    (entries[id]?.map fun e => e.fact.formula.entryKey d) == some key

structure FactBase where
  digest : Digest
  entries : Array Entry
  buckets : Std.TreeMap UInt64 (List FactId)
  atoms : AtomTable
  buckets_eq : ∀ key, buckets.getD key [] = bucketOf digest entries key

namespace FactBase

/-- The empty store with keys from a digest. -/
def emptyWith (d : Digest) : FactBase where
  digest := d
  entries := #[]
  buckets := ∅
  atoms := []
  buckets_eq key := by simp [bucketOf]

def empty : FactBase := emptyWith .standard

def size (b : FactBase) : Nat := b.entries.size

def get? (b : FactBase) (id : FactId) : Option Fact := b.entries[id]?.map (·.fact)

def isLive (b : FactBase) (id : FactId) : Bool := b.entries[id]?.any (·.live)

/-- The live facts with their numbers, in order. -/
def live (b : FactBase) : List (FactId × Fact) :=
  b.entries.toList.zipIdx.filterMap fun (e, id) => if e.live then some (id, e.fact) else none

/-- The fact whose entry a formula shares. -/
def holder? (b : FactBase) (f : Formula) : Option FactId :=
  (b.buckets.getD (f.entryKey b.digest) []).find? fun id =>
    b.entries[id]?.any fun e => e.fact.formula.sameEntry f

/-- Looking only into the bucket of the key finds what going through all facts would find. -/
theorem holder?_eq_find? (b : FactBase) (f : Formula) :
    b.holder? f = (List.range b.size).find? fun id =>
      b.entries[id]?.any fun e => e.fact.formula.sameEntry f := by
  unfold holder?
  rw [b.buckets_eq, bucketOf, List.find?_filter]
  congr 1
  funext id
  cases he : b.entries[id]? with
  | none => simp
  | some e =>
    cases hs : e.fact.formula.sameEntry f with
    | false => simp [hs]
    | true => simp [hs, Formula.entryKey_eq_of_sameEntry b.digest hs]

def contains (b : FactBase) (f : Formula) : Bool := (b.holder? f).isSome

/-- The live fact that is like a formula, sign included. -/
def find? (b : FactBase) (f : Formula) : Option FactId :=
  (b.holder? f).filter fun id => b.entries[id]?.any fun e => e.live && e.fact.formula.alike f

theorem bucketOf_push (d : Digest) (entries : Array Entry) (e : Entry) (key : UInt64) :
    bucketOf d (entries.push e) key =
      if e.fact.formula.entryKey d = key then bucketOf d entries key ++ [entries.size]
      else bucketOf d entries key := by
  have old : ∀ id ∈ List.range entries.size,
      ((entries.push e)[id]?.map fun e => e.fact.formula.entryKey d) =
        (entries[id]?.map fun e => e.fact.formula.entryKey d) := by
    intro id hid
    have hlt : id < entries.size := List.mem_range.mp hid
    rw [Array.getElem?_push_lt hlt, Array.getElem?_eq_getElem hlt]
  unfold bucketOf
  rw [Array.size_push, List.range_succ, List.filter_append,
    List.filter_congr fun id hid => by rw [old id hid]]
  by_cases h : e.fact.formula.entryKey d = key <;> simp [h]

theorem bucketOf_map (d : Digest) (entries : Array Entry) (f : Entry → Entry) (key : UInt64)
    (same : ∀ e, (f e).fact = e.fact) :
    bucketOf d (entries.map f) key = bucketOf d entries key := by
  unfold bucketOf
  rw [Array.size_map]
  refine List.filter_congr fun id _ => ?_
  rw [Array.getElem?_map, Option.map_map]
  simp [Function.comp_def, same]

/-- Stores a fact at the end, live, with the table of atoms that comes of it. -/
def append (b : FactBase) (fact : Fact) (atoms : AtomTable) : FactBase where
  digest := b.digest
  entries := b.entries.push ⟨fact, true⟩
  buckets :=
    let key := fact.formula.entryKey b.digest
    b.buckets.insert key (b.buckets.getD key [] ++ [b.entries.size])
  atoms := atoms
  buckets_eq key := by
    rw [Std.TreeMap.getD_insert, bucketOf_push]
    by_cases h : fact.formula.entryKey b.digest = key
    · simp [h, b.buckets_eq]
    · simp [h, b.buckets_eq]

@[simp] theorem size_append (b : FactBase) (fact : Fact) (atoms : AtomTable) :
    (b.append fact atoms).size = b.size + 1 := by
  simp [append, size]

theorem get?_append (b : FactBase) (fact : Fact) (atoms : AtomTable) (id : FactId) :
    (b.append fact atoms).get? id = if id = b.size then some fact else b.get? id := by
  simp only [append, get?, size, Array.getElem?_push]
  by_cases h : id = b.entries.size <;> simp [h]

/-- What there is to report when a formula is turned away for a stored fact: that they are atoms of
opposite signs. -/
def objections (b : FactBase) (id : FactId) (f : Formula) : Array Event :=
  match b.get? id with
  | some ⟨.atom name negated truth, _⟩ =>
    let known : Formula := .atom name negated truth
    if known.alike f then #[] else #[.contradicted f known name (b.atoms.get name)]
  | _ => #[]

/-- Adds a fact unless another one holds its entry. Returns its number if it was added. -/
def push (b : FactBase) (fact : Fact) : Logged (FactBase × Option FactId) :=
  match b.holder? fact.formula with
  | some id => ⟨(b, none), b.objections id fact.formula⟩
  | none => do
    let atoms ← b.atoms.learn fact.formula
    return (b.append fact atoms, some b.size)

def setTruth (b : FactBase) (name : String) (truth : Truth) : Logged FactBase := do
  let atoms ← b.atoms.set name truth
  return { b with atoms := atoms }

/-- The live trivial implications. -/
def trivial (b : FactBase) : List Formula :=
  (b.live.map fun (_, fact) => fact.formula).filter Formula.isTrivial

/-- Takes the trivial implications out of use and returns how many there were. -/
def prune (b : FactBase) : Logged (FactBase × Nat) :=
  let trivial := b.trivial
  let pruned : FactBase :=
    { b with
      entries := b.entries.map Entry.prune
      buckets_eq := fun key => by rw [b.buckets_eq, bucketOf_map _ _ Entry.prune _ fun _ => rfl] }
  ⟨(pruned, trivial.length), (trivial.map Event.pruned).toArray⟩

end FactBase

end Turnstile
