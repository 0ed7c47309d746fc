import Turnstile.Reader
import Turnstile.Proofs.Spelling

/-!
The grammar of formulas, and the reader as its parser.

* `Phrase`: the tokens that form a phrase of each level of the grammar, with its tree;
* `Moves`: all that the reader does at one lexeme where no token separates formulas.
  `step_eq_ok_iff` says that a step is such a move;
* `Read`: how the tokens read so far make up the open brackets, what waits in them and the operand
  at hand. `Moves.read`: each move keeps it, so a text that is read through is a phrase;
* `Phrase.reading`: conversely, reading a phrase comes to the same as reading its tree as one
  operand;
* `parseFormula_eq_ok_iff`: so a text is read as a formula just if it spells a phrase with this
  tree.
-/

namespace Turnstile

open Formula

/-! ## The grammar -/

/-- The levels of precedence in the grammar, from the loosest to the tightest. -/
inductive Precedence where
  | equivalence | implication | disjunction | conjunction | primed | signed | primary
  deriving DecidableEq, Repr

/-- Equivalences and implications group to the right, disjunctions and conjunctions to the left. A
negation sign or a prime turns the sign of what it is applied to. -/
inductive Phrase : Precedence → List Token → Formula → Prop
  | equivalence {ts : List Token} {f : Formula} (h : Phrase .implication ts f) :
      Phrase .equivalence ts f
  | iff {ts us : List Token} {f g : Formula} (hl : Phrase .implication ts f)
      (hr : Phrase .equivalence us g) : Phrase .equivalence (ts ++ .iff :: us) (.equiv f g)
  | implication {ts : List Token} {f : Formula} (h : Phrase .disjunction ts f) :
      Phrase .implication ts f
  | implies {ts us : List Token} {f g : Formula} (hl : Phrase .disjunction ts f)
      (hr : Phrase .implication us g) : Phrase .implication (ts ++ .implies :: us) (.imp f g)
  | disjunction {ts : List Token} {f : Formula} (h : Phrase .conjunction ts f) :
      Phrase .disjunction ts f
  | or {ts us : List Token} {f g : Formula} (hl : Phrase .disjunction ts f)
      (hr : Phrase .conjunction us g) : Phrase .disjunction (ts ++ .or :: us) (.disj f g)
  | conjunction {ts : List Token} {f : Formula} (h : Phrase .primed ts f) :
      Phrase .conjunction ts f
  | and {ts us : List Token} {f g : Formula} (hl : Phrase .conjunction ts f)
      (hr : Phrase .primed us g) : Phrase .conjunction (ts ++ .and :: us) (.conj f g)
  | primed {ts : List Token} {f : Formula} (h : Phrase .signed ts f) : Phrase .primed ts f
  | prime {ts : List Token} {f : Formula} (h : Phrase .primed ts f) :
      Phrase .primed (ts ++ [.prime]) f.negate
  | not {ts : List Token} {f : Formula} (h : Phrase .signed ts f) :
      Phrase .signed (.not :: ts) f.negate
  | signed {ts : List Token} {f : Formula} (h : Phrase .primary ts f) : Phrase .signed ts f
  | atom (letter : Char) : Phrase .primary [.atom letter] (.var (String.ofList [letter]))
  | group {ts : List Token} {f : Formula} (h : Phrase .equivalence ts f) :
      Phrase .primary (.opening :: ts ++ [.closing]) f

/-! ## The reader, move by move -/

namespace Reader

/-- What the reader does at a lexeme, where no token separates formulas. -/
inductive Moves : Reader → Lexeme → Reader → Prop
  | atom {fs : List Formula} {bs : List OpenBracket} {p : Pending} {negated : Bool}
      (letter : Char) (place : Span) :
      Moves ⟨fs, bs, p, .wanted negated⟩ ⟨.atom letter, place⟩
        ⟨fs, bs, p, .read (negateIf negated (.var (String.ofList [letter])))⟩
  | not {fs : List Formula} {bs : List OpenBracket} {p : Pending} {negated : Bool}
      (place : Span) :
      Moves ⟨fs, bs, p, .wanted negated⟩ ⟨.not, place⟩ ⟨fs, bs, p, .wanted (!negated)⟩
  | opening {fs : List Formula} {bs : List OpenBracket} {p : Pending} {negated : Bool}
      (place : Span) :
      Moves ⟨fs, bs, p, .wanted negated⟩ ⟨.opening, place⟩
        ⟨fs, ⟨place, negated, p⟩ :: bs, .none, .wanted false⟩
  | prime {fs : List Formula} {bs : List OpenBracket} {p : Pending} {f : Formula}
      (place : Span) :
      Moves ⟨fs, bs, p, .read f⟩ ⟨.prime, place⟩ ⟨fs, bs, p, .read f.negate⟩
  | and {fs : List Formula} {bs : List OpenBracket} {p : Pending} {f : Formula} (place : Span) :
      Moves ⟨fs, bs, p, .read f⟩ ⟨.and, place⟩ ⟨fs, bs, p.pushAnd f, .wanted false⟩
  | or {fs : List Formula} {bs : List OpenBracket} {p : Pending} {f : Formula} (place : Span) :
      Moves ⟨fs, bs, p, .read f⟩ ⟨.or, place⟩ ⟨fs, bs, p.pushOr f, .wanted false⟩
  | implies {fs : List Formula} {bs : List OpenBracket} {p : Pending} {f : Formula}
      (place : Span) :
      Moves ⟨fs, bs, p, .read f⟩ ⟨.implies, place⟩ ⟨fs, bs, p.pushImplies f, .wanted false⟩
  | iff {fs : List Formula} {bs : List OpenBracket} {p : Pending} {f : Formula} (place : Span) :
      Moves ⟨fs, bs, p, .read f⟩ ⟨.iff, place⟩ ⟨fs, bs, p.pushIff f, .wanted false⟩
  | closing {fs : List Formula} {b : OpenBracket} {bs : List OpenBracket} {p : Pending}
      {f : Formula} (place : Span) :
      Moves ⟨fs, b :: bs, p, .read f⟩ ⟨.closing, place⟩
        ⟨fs, bs, b.outside, .read (negateIf b.negated (p.close f))⟩

theorem step_eq_ok_iff {r r' : Reader} {x : Lexeme} :
    r.step .never x = .ok r' ↔ Moves r x r' := by
  obtain ⟨fs, bs, p, operand⟩ := r
  obtain ⟨t, place⟩ := x
  constructor
  · intro h
    cases operand with
    | wanted negated =>
      cases t <;> cases h
      · exact .atom _ place
      · exact .not place
      · exact .opening place
    | read f =>
      cases bs with
      | nil =>
        cases t <;> cases h
        · exact .prime place
        · exact .and place
        · exact .or place
        · exact .implies place
        · exact .iff place
      | cons b bs =>
        cases t <;> cases h
        · exact .prime place
        · exact .and place
        · exact .or place
        · exact .implies place
        · exact .iff place
        · exact .closing place
  · intro h
    cases h
    case closing => rfl
    all_goals cases bs <;> rfl

theorem run_append (r : Reader) (xs ys : List Lexeme) :
    r.run .never (xs ++ ys) = (r.run .never xs).bind fun r' => r'.run .never ys := by
  induction xs generalizing r with
  | nil => rfl
  | cons x xs ih =>
    rw [List.cons_append, run, run]
    cases r.step .never x with
    | error e => rfl
    | ok r' => exact ih r'

theorem run_cons (separates : Separator) (r : Reader) (x : Lexeme) (xs : List Lexeme) :
    r.run separates (x :: xs) = (r.step separates x).bind fun r' => r'.run separates xs := by
  rw [run]
  cases r.step separates x <;> rfl

theorem read_eq_bind (separates : Separator) (scan : Scan) :
    read separates scan =
      ((start []).run separates scan.lexemes).bind fun r => r.finish scan.stop := by
  unfold read
  cases (start []).run separates scan.lexemes <;> rfl

/-- The reader gets from one state to another through the lexemes. -/
def Runs (r : Reader) (xs : List Lexeme) (r' : Reader) : Prop := r.run .never xs = .ok r'

theorem Runs.append {r r' r'' : Reader} {xs ys : List Lexeme} (h : r.Runs xs r')
    (h' : r'.Runs ys r'') : r.Runs (xs ++ ys) r'' := by
  have hrun := run_append r xs ys
  rw [h] at hrun
  exact hrun.trans h'

theorem Moves.runs {r r' : Reader} {x : Lexeme} (h : Moves r x r') : r.Runs [x] r' := by
  have hstep := step_eq_ok_iff.mpr h
  rw [Runs, run, hstep]
  rfl

/-! ## What has been read -/

/-- Negation signs, and whether they negate. -/
inductive Signs : Bool → List Token → Prop
  | none : Signs false []
  | not {negated : Bool} {ts : List Token} (h : Signs negated ts) :
      Signs (!negated) (ts ++ [.not])

theorem Signs.phrase {negated : Bool} {ss ts : List Token} {f : Formula} (hs : Signs negated ss)
    (h : Phrase .signed ts f) : Phrase .signed (ss ++ ts) (negateIf negated f) := by
  induction hs generalizing ts f with
  | none => exact h
  | @not negated ss hs ih =>
    have hnot := ih h.not
    rw [List.append_assoc]
    cases negated with
    | false => exact hnot
    | true => rwa [negateIf, if_pos rfl, negate_negate] at hnot

/-- Phrases of a level, each with a connective after it; the formulas are in reverse order. -/
inductive Chain (level : Precedence) (sign : Token) : List Formula → List Token → Prop
  | nil : Chain level sign [] []
  | cons {fs : List Formula} {ts us : List Token} {f : Formula} (h : Chain level sign fs ts)
      (hf : Phrase level us f) : Chain level sign (f :: fs) (ts ++ us ++ [sign])

/-- What waits in a bracket: chains for the two connectives that group to the right, and at most one
phrase each for the others. -/
inductive Waiting : Pending → List Token → Prop
  | intro {p : Pending} {is ms ds cs : List Token} (hi : Chain .implication .iff p.iffs is)
      (hm : Chain .disjunction .implies p.implications ms)
      (hd : Chain .disjunction .or p.disjunction.toList ds)
      (hc : Chain .conjunction .and p.conjunction.toList cs) :
      Waiting p (is ++ (ms ++ (ds ++ cs)))

/-- The brackets that are open, each with what waits outside it and the signs before it. -/
inductive Inside : List OpenBracket → List Token → Prop
  | nil : Inside [] []
  | cons {b : OpenBracket} {bs : List OpenBracket} {ts us ss : List Token} (h : Inside bs ts)
      (hp : Waiting b.outside us) (hs : Signs b.negated ss) :
      Inside (b :: bs) (ts ++ us ++ ss ++ [.opening])

inductive AtHand : Operand → List Token → Prop
  | wanted {negated : Bool} {ss : List Token} (h : Signs negated ss) :
      AtHand (.wanted negated) ss
  | read {ts : List Token} {f : Formula} (h : Phrase .primed ts f) : AtHand (.read f) ts

/-- The tokens that the reader has come through to this state. -/
inductive Read : Reader → List Token → Prop
  | intro {fs : List Formula} {bs : List OpenBracket} {p : Pending} {operand : Operand}
      {ts us vs : List Token} (hb : Inside bs ts) (hp : Waiting p us) (ho : AtHand operand vs) :
      Read ⟨fs, bs, p, operand⟩ (ts ++ us ++ vs)

theorem waiting_none : Waiting .none [] :=
  show Waiting .none ([] ++ ([] ++ ([] ++ []))) from .intro .nil .nil .nil .nil

theorem read_start (fs : List Formula) : Read (start fs) [] :=
  show Read (start fs) ([] ++ [] ++ []) from .intro .nil waiting_none (.wanted .none)

/-! ## What an operand completes -/

section Closing

variable {p : Pending} {f : Formula} {vs : List Token}

/-- What waits for a connective that groups to the left: nothing, or one phrase before it. -/
theorem Chain.option_cases {level : Precedence} {sign : Token} {g? : Option Formula}
    {ts : List Token} (h : Chain level sign g?.toList ts) :
    (g? = none ∧ ts = []) ∨ ∃ g us, g? = some g ∧ ts = us ++ [sign] ∧ Phrase level us g := by
  cases g? with
  | none =>
    cases h
    exact Or.inl ⟨rfl, rfl⟩
  | some g =>
    cases h with
    | cons hnil hg =>
      cases hnil
      exact Or.inr ⟨g, _, rfl, rfl, hg⟩

theorem Chain.closeAnd {cs : List Token} (hc : Chain .conjunction .and p.conjunction.toList cs)
    (h : Phrase .primed vs f) : Phrase .conjunction (cs ++ vs) (p.closeAnd f) := by
  unfold Pending.closeAnd
  rcases hc.option_cases with ⟨hwaits, rfl⟩ | ⟨g, us, hwaits, rfl, hg⟩
  · rw [hwaits]
    exact .conjunction h
  · rw [hwaits, List.append_assoc]
    exact hg.and h

theorem Chain.closeOr {ds cs : List Token} (hd : Chain .disjunction .or p.disjunction.toList ds)
    (hc : Chain .conjunction .and p.conjunction.toList cs) (h : Phrase .primed vs f) :
    Phrase .disjunction (ds ++ (cs ++ vs)) (p.closeOr f) := by
  have hand := hc.closeAnd h
  unfold Pending.closeOr
  rcases hd.option_cases with ⟨hwaits, rfl⟩ | ⟨g, us, hwaits, rfl, hg⟩
  · rw [hwaits]
    exact .disjunction hand
  · rw [hwaits, List.append_assoc]
    exact hg.or hand

/-- From the innermost outwards, each antecedent makes an implication of what follows it. -/
theorem Chain.implications {gs : List Formula} {ms us : List Token}
    (hm : Chain .disjunction .implies gs ms) (h : Phrase .implication us f) :
    Phrase .implication (ms ++ us)
      (gs.foldl (fun consequent antecedent => .imp antecedent consequent) f) := by
  induction hm generalizing us f with
  | nil => exact h
  | cons _ hg ih => simpa using ih (hg.implies h)

theorem Chain.equivalences {gs : List Formula} {is us : List Token}
    (hi : Chain .implication .iff gs is) (h : Phrase .equivalence us f) :
    Phrase .equivalence (is ++ us) (gs.foldl (fun rest first => .equiv first rest) f) := by
  induction hi generalizing us f with
  | nil => exact h
  | cons _ hg ih => simpa using ih (hg.iff h)

theorem Chain.closeImplies {ms ds cs : List Token}
    (hm : Chain .disjunction .implies p.implications ms)
    (hd : Chain .disjunction .or p.disjunction.toList ds)
    (hc : Chain .conjunction .and p.conjunction.toList cs) (h : Phrase .primed vs f) :
    Phrase .implication (ms ++ (ds ++ (cs ++ vs))) (p.closeImplies f) :=
  hm.implications (.implication (hd.closeOr hc h))

namespace Waiting

variable {us : List Token}

theorem close (hp : Waiting p us) (h : Phrase .primed vs f) :
    Phrase .equivalence (us ++ vs) (p.close f) := by
  cases hp with
  | intro hi hm hd hc =>
    have hclose := hi.equivalences (.equivalence (hm.closeImplies hd hc h))
    simpa [Pending.close] using hclose

theorem pushAnd (hp : Waiting p us) (h : Phrase .primed vs f) :
    Waiting (p.pushAnd f) (us ++ vs ++ [.and]) := by
  cases hp with
  | @intro is ms ds cs hi hm hd hc =>
    have hpush : Waiting (p.pushAnd f) (is ++ (ms ++ (ds ++ ([] ++ (cs ++ vs) ++ [.and])))) :=
      .intro hi hm hd (.cons .nil (hc.closeAnd h))
    simpa using hpush

theorem pushOr (hp : Waiting p us) (h : Phrase .primed vs f) :
    Waiting (p.pushOr f) (us ++ vs ++ [.or]) := by
  cases hp with
  | @intro is ms ds cs hi hm hd hc =>
    have hpush : Waiting (p.pushOr f)
        (is ++ (ms ++ (([] ++ (ds ++ (cs ++ vs)) ++ [.or]) ++ []))) :=
      .intro hi hm (.cons .nil (hd.closeOr hc h)) .nil
    simpa using hpush

theorem pushImplies (hp : Waiting p us) (h : Phrase .primed vs f) :
    Waiting (p.pushImplies f) (us ++ vs ++ [.implies]) := by
  cases hp with
  | @intro is ms ds cs hi hm hd hc =>
    have hpush : Waiting (p.pushImplies f)
        (is ++ ((ms ++ (ds ++ (cs ++ vs)) ++ [.implies]) ++ ([] ++ []))) :=
      .intro hi (.cons hm (hd.closeOr hc h)) .nil .nil
    simpa using hpush

theorem pushIff (hp : Waiting p us) (h : Phrase .primed vs f) :
    Waiting (p.pushIff f) (us ++ vs ++ [.iff]) := by
  cases hp with
  | @intro is ms ds cs hi hm hd hc =>
    have hpush : Waiting (p.pushIff f)
        ((is ++ (ms ++ (ds ++ (cs ++ vs))) ++ [.iff]) ++ ([] ++ ([] ++ []))) :=
      .intro (.cons hi (hm.closeImplies hd hc h)) .nil .nil .nil
    simpa using hpush

end Waiting

end Closing

/-- After a connective an operand is wanted again. -/
theorem Read.await {fs : List Formula} {bs : List OpenBracket} {p : Pending}
    {ts us : List Token} (hb : Inside bs ts) (hp : Waiting p us) :
    Read ⟨fs, bs, p, .wanted false⟩ (ts ++ us) := by
  have hread : Read ⟨fs, bs, p, .wanted false⟩ (ts ++ us ++ []) := .intro hb hp (.wanted .none)
  simpa using hread

/-- One case for each move. -/
theorem Moves.read {r r' : Reader} {x : Lexeme} {ts : List Token} (h : Moves r x r')
    (hr : Read r ts) : Read r' (ts ++ [x.token]) := by
  cases hr with
  | @intro fs bs p operand ts us vs hb hp ho =>
    cases h with
    | atom letter =>
      cases ho with
      | wanted hs =>
        rw [List.append_assoc]
        exact .intro hb hp (.read (.primed (hs.phrase (.signed (.atom letter)))))
    | not =>
      cases ho with
      | wanted hs =>
        rw [List.append_assoc]
        exact .intro hb hp (.wanted hs.not)
    | opening =>
      cases ho with
      | wanted hs => simpa using Read.await (hb.cons hp hs) waiting_none
    | prime =>
      cases ho with
      | read h =>
        rw [List.append_assoc]
        exact .intro hb hp (.read h.prime)
    | and =>
      cases ho with
      | read h => simpa using Read.await hb (hp.pushAnd h)
    | or =>
      cases ho with
      | read h => simpa using Read.await hb (hp.pushOr h)
    | implies =>
      cases ho with
      | read h => simpa using Read.await hb (hp.pushImplies h)
    | iff =>
      cases ho with
      | read h => simpa using Read.await hb (hp.pushIff h)
    | closing =>
      cases ho with
      | read h =>
        cases hb with
        | cons hb hp' hs =>
          have hgroup := hs.phrase (.signed (hp.close h).group)
          simpa using Read.intro hb hp' (.read (.primed hgroup))

theorem Runs.read {r r' : Reader} {xs : List Lexeme} {ts : List Token} (h : r.Runs xs r')
    (hr : Read r ts) : Read r' (ts ++ xs.map Lexeme.token) := by
  induction xs generalizing r ts with
  | nil =>
    cases h
    simpa using hr
  | cons x xs ih =>
    rw [Runs, run] at h
    split at h
    · next hstep => simpa using ih h ((step_eq_ok_iff.mp hstep).read hr)
    · cases h

/-- Where the reader may stop, it has come through a whole phrase. -/
theorem Read.phrase {r : Reader} {ts : List Token} {stop : Span} {f : Formula}
    {fs : List Formula} (hr : Read r ts) (h : r.finish stop = .ok (f, fs)) :
    stop.text = [] ∧ Phrase .equivalence ts f := by
  unfold finish at h
  split at h
  · cases h
  · next hstop =>
    cases hr with
    | intro hb hp ho =>
      split at h
      · cases h
      · cases h
      · next f hoperand hbrackets =>
        cases h
        cases hoperand
        cases hbrackets
        cases hb
        cases ho with
        | read h => exact ⟨hstop, by simpa using hp.close h⟩

end Reader

/-! ## Reading a phrase -/

namespace Pending

/-- Nothing waits that a phrase of the level would belong to. -/
def IsFresh : Precedence → Pending → Prop
  | .equivalence, p => p.implications = [] ∧ p.disjunction = .none ∧ p.conjunction = .none
  | .implication, p | .disjunction, p => p.disjunction = .none ∧ p.conjunction = .none
  | .conjunction, p => p.conjunction = .none
  | .primed, _ | .signed, _ | .primary, _ => True

/-- With `g` at hand, `p'` completes what `p` completes with `f`, up to the level, and the same
waits for looser phrases. -/
def Continues : Precedence → Pending → Formula → Pending → Formula → Prop
  | .equivalence, p, f, p', g => p'.close g = p.close f
  | .implication, p, f, p', g => p'.iffs = p.iffs ∧ p'.closeImplies g = p.closeImplies f
  | .disjunction, p, f, p', g =>
    p'.iffs = p.iffs ∧ p'.implications = p.implications ∧ p'.closeOr g = p.closeOr f
  | .conjunction, p, f, p', g =>
    p'.iffs = p.iffs ∧ p'.implications = p.implications ∧ p'.disjunction = p.disjunction ∧
      p'.closeAnd g = p.closeAnd f
  | .primed, p, f, p', g | .signed, p, f, p', g | .primary, p, f, p', g => p' = p ∧ g = f

variable {p : Pending}

theorem closeAnd_of_fresh (h : p.conjunction = .none) (f : Formula) : p.closeAnd f = f := by
  rw [closeAnd, h]

theorem closeOr_of_fresh (hd : p.disjunction = .none) (hc : p.conjunction = .none)
    (f : Formula) : p.closeOr f = f := by
  rw [closeOr, hd]
  exact closeAnd_of_fresh hc f

theorem closeImplies_of_fresh (hm : p.implications = []) (hd : p.disjunction = .none)
    (hc : p.conjunction = .none) (f : Formula) : p.closeImplies f = f := by
  rw [closeImplies, hm, closeOr_of_fresh hd hc]
  rfl

end Pending

namespace Reader

/-- Reading the lexemes as a phrase of the level comes to the same as reading the formula as one
operand. -/
def ReadsAs (level : Precedence) (xs : List Lexeme) (f : Formula) : Prop :=
  ∀ fs bs p, p.IsFresh level → ∃ p' g,
    Runs ⟨fs, bs, p, .wanted false⟩ xs ⟨fs, bs, p', .read g⟩ ∧ p.Continues level f p' g

/-- The lexemes are read as the operand itself, with the signs before them. -/
def ReadsAsOperand (xs : List Lexeme) (f : Formula) : Prop :=
  ∀ fs bs p negated,
    Runs ⟨fs, bs, p, .wanted negated⟩ xs ⟨fs, bs, p, .read (negateIf negated f)⟩

theorem ReadsAs.conjunction {xs : List Lexeme} {f : Formula} (h : ReadsAs .primed xs f) :
    ReadsAs .conjunction xs f := by
  intro fs bs p _
  obtain ⟨p', g, hruns, rfl, rfl⟩ := h fs bs p trivial
  exact ⟨_, _, hruns, rfl, rfl, rfl, rfl⟩

theorem ReadsAs.disjunction {xs : List Lexeme} {f : Formula} (h : ReadsAs .conjunction xs f) :
    ReadsAs .disjunction xs f := by
  rintro fs bs p ⟨hd, hc⟩
  obtain ⟨p', g, hruns, hiffs, himplications, hdisjunction, hclose⟩ := h fs bs p hc
  refine ⟨p', g, hruns, hiffs, himplications, ?_⟩
  rw [Pending.closeOr, Pending.closeOr, hdisjunction, hclose]

theorem ReadsAs.implication {xs : List Lexeme} {f : Formula} (h : ReadsAs .disjunction xs f) :
    ReadsAs .implication xs f := by
  intro fs bs p hfresh
  obtain ⟨p', g, hruns, hiffs, himplications, hclose⟩ := h fs bs p hfresh
  refine ⟨p', g, hruns, hiffs, ?_⟩
  rw [Pending.closeImplies, Pending.closeImplies, himplications, hclose]

theorem ReadsAs.equivalence {xs : List Lexeme} {f : Formula} (h : ReadsAs .implication xs f) :
    ReadsAs .equivalence xs f := by
  rintro fs bs p ⟨_, hfresh⟩
  obtain ⟨p', g, hruns, hiffs, hclose⟩ := h fs bs p hfresh
  refine ⟨p', g, hruns, ?_⟩
  rw [Pending.Continues, Pending.close, Pending.close, hiffs, hclose]

variable {xs ys : List Lexeme} {f g : Formula} (place : Span)

theorem ReadsAs.and (hl : ReadsAs .conjunction xs f) (hr : ReadsAs .primed ys g) :
    ReadsAs .conjunction (xs ++ ⟨.and, place⟩ :: ys) (.conj f g) := by
  intro fs bs p hc
  obtain ⟨p₁, g₁, hleft, hiffs, himplications, hdisjunction, hclose⟩ := hl fs bs p hc
  obtain ⟨p₂, g₂, hright, rfl, rfl⟩ := hr fs bs (p₁.pushAnd g₁) trivial
  refine ⟨_, _, hleft.append ((Moves.and place).runs.append hright), hiffs, himplications,
    hdisjunction, ?_⟩
  rw [Pending.closeAnd_of_fresh hc] at hclose ⊢
  rw [← hclose]
  rfl

theorem ReadsAs.or (hl : ReadsAs .disjunction xs f) (hr : ReadsAs .conjunction ys g) :
    ReadsAs .disjunction (xs ++ ⟨.or, place⟩ :: ys) (.disj f g) := by
  rintro fs bs p ⟨hd, hc⟩
  obtain ⟨p₁, g₁, hleft, hiffs, himplications, hclose⟩ := hl fs bs p ⟨hd, hc⟩
  obtain ⟨p₂, g₂, hright, hiffs', himplications', hdisjunction, hclose'⟩ :=
    hr fs bs (p₁.pushOr g₁) rfl
  refine ⟨_, _, hleft.append ((Moves.or place).runs.append hright), hiffs'.trans hiffs,
    himplications'.trans himplications, ?_⟩
  rw [Pending.closeOr_of_fresh hd hc] at hclose ⊢
  rw [Pending.closeOr, hdisjunction, hclose', ← hclose]
  rfl

theorem ReadsAs.implies (hl : ReadsAs .disjunction xs f) (hr : ReadsAs .implication ys g) :
    ReadsAs .implication (xs ++ ⟨.implies, place⟩ :: ys) (.imp f g) := by
  rintro fs bs p ⟨hd, hc⟩
  obtain ⟨p₁, g₁, hleft, hiffs, himplications, hclose⟩ := hl fs bs p ⟨hd, hc⟩
  obtain ⟨p₂, g₂, hright, hiffs', hclose'⟩ := hr fs bs (p₁.pushImplies g₁) ⟨rfl, rfl⟩
  refine ⟨_, _, hleft.append ((Moves.implies place).runs.append hright), hiffs'.trans hiffs, ?_⟩
  rw [Pending.closeOr_of_fresh hd hc] at hclose
  rw [hclose', Pending.closeImplies, Pending.closeImplies, Pending.closeOr_of_fresh hd hc,
    Pending.closeOr_of_fresh rfl rfl, Pending.pushImplies, hclose, himplications]
  rfl

theorem ReadsAs.iff (hl : ReadsAs .implication xs f) (hr : ReadsAs .equivalence ys g) :
    ReadsAs .equivalence (xs ++ ⟨.iff, place⟩ :: ys) (.equiv f g) := by
  rintro fs bs p ⟨hm, hd, hc⟩
  obtain ⟨p₁, g₁, hleft, hiffs, hclose⟩ := hl fs bs p ⟨hd, hc⟩
  obtain ⟨p₂, g₂, hright, hclose'⟩ := hr fs bs (p₁.pushIff g₁) ⟨rfl, rfl, rfl⟩
  refine ⟨_, _, hleft.append ((Moves.iff place).runs.append hright), ?_⟩
  rw [Pending.closeImplies_of_fresh hm hd hc] at hclose
  rw [Pending.Continues, hclose', Pending.close, Pending.close,
    Pending.closeImplies_of_fresh hm hd hc, Pending.closeImplies_of_fresh rfl rfl rfl,
    Pending.pushIff, hclose, hiffs]
  rfl

theorem ReadsAs.prime (h : ReadsAs .primed xs f) :
    ReadsAs .primed (xs ++ [⟨.prime, place⟩]) f.negate := by
  intro fs bs p hfresh
  obtain ⟨p', g, hruns, rfl, rfl⟩ := h fs bs p hfresh
  exact ⟨_, _, hruns.append (Moves.prime place).runs, rfl, rfl⟩

theorem ReadsAsOperand.primed (h : ReadsAsOperand xs f) : ReadsAs .primed xs f :=
  fun fs bs p _ => ⟨p, f, h fs bs p false, rfl, rfl⟩

theorem ReadsAsOperand.not (h : ReadsAsOperand xs f) :
    ReadsAsOperand (⟨.not, place⟩ :: xs) f.negate := by
  intro fs bs p negated
  have hruns := (Moves.not place).runs.append (h fs bs p (!negated))
  cases negated with
  | false => exact hruns
  | true => simpa [negateIf] using hruns

theorem readsAsOperand_atom (letter : Char) :
    ReadsAsOperand [⟨.atom letter, place⟩] (.var (String.ofList [letter])) :=
  fun _ _ _ _ => (Moves.atom letter place).runs

/-- Inside a bracket reading starts anew, and the closing bracket completes all that waits there. -/
theorem ReadsAs.group (h : ReadsAs .equivalence xs f) (place' : Span) :
    ReadsAsOperand (⟨.opening, place⟩ :: xs ++ [⟨.closing, place'⟩]) f := by
  intro fs bs p negated
  obtain ⟨p', g, hruns, hclose⟩ := h fs (⟨place, negated, p⟩ :: bs) .none ⟨rfl, rfl, rfl⟩
  have hclose : p'.close g = f := hclose
  have hgroup := ((Moves.opening place).runs.append hruns).append (Moves.closing place').runs
  rwa [hclose] at hgroup

end Reader

theorem exists_lexeme_of_map_eq {xs : List Lexeme} {ts us : List Token} {t : Token}
    (h : xs.map Lexeme.token = ts ++ t :: us) :
    ∃ ys place zs, xs = ys ++ ⟨t, place⟩ :: zs ∧ ys.map Lexeme.token = ts ∧
      zs.map Lexeme.token = us := by
  obtain ⟨ys, rest, rfl, hys, hrest⟩ := List.map_eq_append_iff.mp h
  obtain ⟨x, zs, rfl, rfl, hzs⟩ := List.map_eq_cons_iff.mp hrest
  exact ⟨ys, x.span, zs, rfl, hys, hzs⟩

/-- What the lexemes of a phrase are read as, by its level. -/
def Precedence.Reading : Precedence → List Lexeme → Formula → Prop
  | .signed, xs, f | .primary, xs, f => Reader.ReadsAsOperand xs f
  | level, xs, f => Reader.ReadsAs level xs f

theorem Phrase.reading {level : Precedence} {ts : List Token} {f : Formula}
    (h : Phrase level ts f) :
    ∀ xs : List Lexeme, xs.map Lexeme.token = ts → level.Reading xs f := by
  induction h with
  | equivalence _ ih => exact fun xs hxs => (ih xs hxs).equivalence
  | implication _ ih => exact fun xs hxs => (ih xs hxs).implication
  | disjunction _ ih => exact fun xs hxs => (ih xs hxs).disjunction
  | conjunction _ ih => exact fun xs hxs => (ih xs hxs).conjunction
  | primed _ ih => exact fun xs hxs => (ih xs hxs).primed
  | signed _ ih => exact ih
  | atom letter =>
    intro xs hxs
    obtain ⟨⟨_, place⟩, zs, rfl, rfl, hzs⟩ := List.map_eq_cons_iff.mp hxs
    cases List.map_eq_nil_iff.mp hzs
    exact Reader.readsAsOperand_atom place letter
  | not _ ih =>
    intro xs hxs
    obtain ⟨⟨_, place⟩, zs, rfl, rfl, hzs⟩ := List.map_eq_cons_iff.mp hxs
    exact (ih zs hzs).not place
  | prime _ ih =>
    intro xs hxs
    obtain ⟨ys, place, zs, rfl, hys, hzs⟩ := exists_lexeme_of_map_eq hxs
    cases List.map_eq_nil_iff.mp hzs
    exact (ih ys hys).prime place
  | group _ ih =>
    intro xs hxs
    obtain ⟨_, place', zs, rfl, hopening, hzs⟩ := exists_lexeme_of_map_eq hxs
    cases List.map_eq_nil_iff.mp hzs
    obtain ⟨⟨_, place⟩, ys, rfl, rfl, hys⟩ := List.map_eq_cons_iff.mp hopening
    exact (ih ys hys).group place place'
  | iff _ _ ihl ihr =>
    intro xs hxs
    obtain ⟨ys, place, zs, rfl, hys, hzs⟩ := exists_lexeme_of_map_eq hxs
    exact (ihl ys hys).iff place (ihr zs hzs)
  | implies _ _ ihl ihr =>
    intro xs hxs
    obtain ⟨ys, place, zs, rfl, hys, hzs⟩ := exists_lexeme_of_map_eq hxs
    exact (ihl ys hys).implies place (ihr zs hzs)
  | or _ _ ihl ihr =>
    intro xs hxs
    obtain ⟨ys, place, zs, rfl, hys, hzs⟩ := exists_lexeme_of_map_eq hxs
    exact (ihl ys hys).or place (ihr zs hzs)
  | and _ _ ihl ihr =>
    intro xs hxs
    obtain ⟨ys, place, zs, rfl, hys, hzs⟩ := exists_lexeme_of_map_eq hxs
    exact (ihl ys hys).and place (ihr zs hzs)

/-! ## Texts -/

theorem Reader.read_eq_ok_iff {scan : Scan} {result : Formula × List Formula} :
    read .never scan = .ok result ↔
      ∃ r, (start []).Runs scan.lexemes r ∧ r.finish scan.stop = .ok result := by
  unfold read Runs
  cases (start []).run .never scan.lexemes <;> simp

theorem parseFormula_eq_ok {text : String} {f : Formula} :
    parseFormula text = .ok f ↔ ∃ fs, Reader.read .never (.ofText text) = .ok (f, fs) := by
  unfold parseFormula
  split <;> simp_all

/-- A text is read as a formula if and only if it spells tokens that form a phrase of the loosest
level with the formula as its tree. -/
theorem parseFormula_eq_ok_iff (text : String) (f : Formula) :
    parseFormula text = .ok f ↔
      ∃ ts, Spells text.toList ts ∧ Phrase .equivalence ts f := by
  rw [parseFormula_eq_ok]
  constructor
  · rintro ⟨fs, hread⟩
    obtain ⟨r, hruns, hfinish⟩ := Reader.read_eq_ok_iff.mp hread
    obtain ⟨hstop, hphrase⟩ := (hruns.read (Reader.read_start [])).phrase hfinish
    exact ⟨_, (spells_iff .origin).mpr ⟨hstop, rfl⟩, hphrase⟩
  · rintro ⟨ts, hspells, hphrase⟩
    obtain ⟨hstop, htokens⟩ := (spells_iff .origin).mp hspells
    have hreads : Reader.ReadsAs .equivalence (Scan.ofText text).lexemes f :=
      hphrase.reading _ htokens
    obtain ⟨p, g, hruns, hclose⟩ := hreads [] [] .none ⟨rfl, rfl, rfl⟩
    have hclose : p.close g = f := hclose
    refine ⟨[], Reader.read_eq_ok_iff.mpr ⟨_, hruns, ?_⟩⟩
    have hstop : (Scan.ofText text).stop.text = [] := hstop
    rw [Reader.finish, hstop, ← hclose]

end Turnstile
