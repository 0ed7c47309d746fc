import Mathlib.Data.List.Forall2
import Turnstile.Proofs.Places

/-!
Lists of hypotheses. The reader goes through the whole list at once; what it reads is what one would
get by cutting the text first and reading each piece by itself as a formula.

* `CutInto`: the pieces of a text between the commas and conjunction signs outside all brackets;
* `items`: the same for lexemes, as a function. `CutInto.spells_items`: the pieces of a text spell
  the pieces of its lexemes;
* `Reader.Completes`: the lexemes complete a formula where no token separates. From the start this
  is to be a phrase with the formula as its tree (`completes_start_iff`);
* `Reader.readsItems_iff`: what is read with separators, by induction on the lexemes. The reader has
  as many brackets open as the cutting has counted;
* `parseHypotheses_eq_ok_iff`: hence the statement on texts.
-/

namespace Turnstile

/-! ## Cutting -/

namespace Token

/-- Commas and conjunction signs stand between hypotheses. -/
def IsSeparator (t : Token) : Prop := t = .and ∨ t = .comma

instance (t : Token) : Decidable t.IsSeparator :=
  inferInstanceAs (Decidable (t = .and ∨ t = .comma))

theorem items_eq_true_iff (t : Token) : Separator.items t = true ↔ t.IsSeparator := by
  cases t <;> simp [Separator.items, IsSeparator]

/-- How a token changes the number of open brackets. -/
def nesting : Token → Int
  | .opening => 1
  | .closing => -1
  | _ => 0

end Token

/-- A text made of tokens and blanks, cut at every separator outside brackets. The number is that of
the brackets open before it. -/
inductive CutInto : Int → List Char → List (List Char) → Prop
  | nil (depth : Int) : CutInto depth [] [[]]
  | blank {depth : Int} {c : Char} {cs piece : List Char} {pieces : List (List Char)}
      (hc : Text.isBlank c = true) (h : CutInto depth cs (piece :: pieces)) :
      CutInto depth (c :: cs) ((c :: piece) :: pieces)
  | separator {t : Token} {word cs : List Char} {pieces : List (List Char)}
      (hword : t.SpelledBy word) (ht : t.IsSeparator) (h : CutInto 0 cs pieces) :
      CutInto 0 (word ++ cs) ([] :: pieces)
  | token {depth : Int} {t : Token} {word cs piece : List Char} {pieces : List (List Char)}
      (hword : t.SpelledBy word) (ht : ¬ (depth = 0 ∧ t.IsSeparator))
      (h : CutInto (depth + t.nesting) cs (piece :: pieces)) :
      CutInto depth (word ++ cs) ((word ++ piece) :: pieces)

/-- Lexemes cut at every separator outside brackets. -/
def items (depth : Int) : List Lexeme → List (List Lexeme)
  | [] => [[]]
  | x :: xs =>
    if depth = 0 ∧ x.token.IsSeparator then [] :: items depth xs
    else (items (depth + x.token.nesting) xs).modifyHead (List.cons x)

theorem exists_items_eq_cons (depth : Int) (xs : List Lexeme) :
    ∃ first rest, items depth xs = first :: rest := by
  induction xs generalizing depth with
  | nil => exact ⟨[], [], rfl⟩
  | cons x xs ih =>
    rw [items]
    split
    · exact ⟨_, _, rfl⟩
    · obtain ⟨first, rest, h⟩ := ih (depth + x.token.nesting)
      rw [h]
      exact ⟨_, _, rfl⟩

/-- The piece of a text spells the tokens of the lexemes. -/
def SpellsLexemes (piece : List Char) (xs : List Lexeme) : Prop :=
  Spells piece (xs.map Lexeme.token)

theorem CutInto.spells_items {depth : Int} {cs : List Char} {pieces : List (List Char)}
    (h : CutInto depth cs pieces) (p : Point) :
    List.Forall₂ SpellsLexemes pieces (items depth (Scan.fromPoint p cs).lexemes) := by
  induction h generalizing p with
  | nil => exact .cons .nil .nil
  | @blank depth c _ _ _ hc _ ih =>
    rw [Scan.fromPoint_blank hc]
    have hpieces := ih (p.past [c])
    generalize items _ _ = tss at hpieces ⊢
    cases hpieces with
    | cons hpiece hpieces => exact .cons (.blank hc hpiece) hpieces
  | separator hword ht _ ih =>
    rw [Scan.fromPoint_word hword, Scan.push, items, if_pos ⟨rfl, ht⟩]
    exact .cons .nil (ih _)
  | @token depth t word cs _ _ hword ht _ ih =>
    rw [Scan.fromPoint_word hword, Scan.push, items, if_neg ht]
    have hpieces := ih (p.past word)
    generalize items _ _ = tss at hpieces ⊢
    cases hpieces with
    | cons hpiece hpieces => exact .cons (.token hword hpiece) hpieces

theorem Spells.exists_cutInto {cs : List Char} {ts : List Token} (h : Spells cs ts) (depth : Int) :
    ∃ piece pieces, CutInto depth cs (piece :: pieces) := by
  induction h generalizing depth with
  | nil => exact ⟨[], [], .nil depth⟩
  | blank hc _ ih =>
    obtain ⟨piece, pieces, h⟩ := ih depth
    exact ⟨_, _, .blank hc h⟩
  | @token t word cs ts hword _ ih =>
    by_cases ht : depth = 0 ∧ t.IsSeparator
    · obtain ⟨rfl, ht⟩ := ht
      obtain ⟨piece, pieces, h⟩ := ih 0
      exact ⟨_, _, .separator hword ht h⟩
    · obtain ⟨piece, pieces, h⟩ := ih (depth + t.nesting)
      exact ⟨_, _, .token hword ht h⟩

theorem CutInto.spells {depth : Int} {cs : List Char} {pieces : List (List Char)}
    (h : CutInto depth cs pieces) : ∃ ts, Spells cs ts := by
  induction h with
  | nil => exact ⟨[], .nil⟩
  | blank hc _ ih =>
    obtain ⟨ts, h⟩ := ih
    exact ⟨ts, .blank hc h⟩
  | separator hword _ _ ih | token hword _ _ ih =>
    obtain ⟨ts, h⟩ := ih
    exact ⟨_, .token hword h⟩

/-- The lexemes form a whole formula with this tree. -/
def FormsPhrase (xs : List Lexeme) (f : Formula) : Prop :=
  Phrase .equivalence (xs.map Lexeme.token) f

/-! ## Reading one item -/

namespace Reader

theorem finish_eq_ok_iff {r : Reader} {stop : Span} {f : Formula} {gs : List Formula} :
    r.finish stop = .ok (f, gs) ↔
      stop.text = [] ∧ ∃ p g, r = ⟨gs, [], p, .read g⟩ ∧ p.close g = f := by
  obtain ⟨fs, bs, p, operand⟩ := r
  unfold finish
  cases stop.text with
  | cons => simp
  | nil =>
    cases operand with
    | wanted => simp
    | read g =>
      cases bs with
      | cons => simp
      | nil => simp [and_comm]

/-- Where no token separates formulas, the lexemes complete the formula outside all brackets. -/
def Completes (r : Reader) (xs : List Lexeme) (f : Formula) : Prop :=
  ∃ p g, r.Runs xs ⟨r.finished, [], p, .read g⟩ ∧ p.close g = f

theorem completes_start_iff {fs : List Formula} {xs : List Lexeme} {f : Formula} :
    (start fs).Completes xs f ↔ FormsPhrase xs f := by
  constructor
  · rintro ⟨p, g, hruns, rfl⟩
    have hfinish : finish ⟨fs, [], p, .read g⟩ (Point.origin.span []) = .ok (p.close g, fs) := rfl
    exact ((hruns.read (read_start fs)).phrase hfinish).2
  · intro hphrase
    exact hphrase.reading xs rfl fs [] .none ⟨rfl, rfl, rfl⟩

theorem completes_nil_iff {r : Reader} {f : Formula} :
    r.Completes [] f ↔ ∃ p g, r = ⟨r.finished, [], p, .read g⟩ ∧ p.close g = f := by
  simp only [Completes, Runs, run, Except.ok.injEq]

theorem Moves.finished_eq {r r' : Reader} {x : Lexeme} (h : Moves r x r') :
    r'.finished = r.finished := by
  cases h <;> rfl

theorem Moves.length_brackets {r r' : Reader} {x : Lexeme} (h : Moves r x r') :
    (r'.brackets.length : Int) = r.brackets.length + x.token.nesting := by
  cases h with
  | closing => exact (Int.add_neg_cancel_right _ 1).symm
  | _ => simp [Token.nesting]

theorem Moves.completes_iff {r r' : Reader} {x : Lexeme} (h : Moves r x r') {xs : List Lexeme}
    {f : Formula} : r.Completes (x :: xs) f ↔ r'.Completes xs f := by
  have hrun : ∀ r'', r.Runs (x :: xs) r'' ↔ r'.Runs xs r'' := by
    intro r''
    rw [Runs, run, step_eq_ok_iff.mpr h]
    rfl
  simp only [Completes, hrun, h.finished_eq]

theorem not_completes_of_error {r : Reader} {x : Lexeme} {e : ParseError}
    (h : r.step .never x = .error e) (xs : List Lexeme) (f : Formula) :
    ¬ r.Completes (x :: xs) f := by
  rintro ⟨p, g, hruns, _⟩
  rw [Runs, run, h] at hruns
  cases hruns

/-! ## Reading a list -/

/-- Only outside brackets, and after an operand, does it matter that a token separates. -/
theorem step_items_eq {r : Reader} {x : Lexeme}
    (h : ¬ ((r.brackets.length : Int) = 0 ∧ x.token.IsSeparator)) :
    r.step .items x = r.step .never x := by
  obtain ⟨fs, bs, p, operand⟩ := r
  cases operand with
  | wanted negated => rfl
  | read f =>
    have hseparates : (bs.isEmpty && Separator.items x.token) = false := by
      cases bs with
      | cons => rfl
      | nil =>
        have ht : ¬ x.token.IsSeparator := fun ht => h ⟨rfl, ht⟩
        rw [← Token.items_eq_true_iff] at ht
        simpa using ht
    simp only [step, afterOperand, hseparates, Separator.never, Bool.and_false]

theorem step_items_separator {fs : List Formula} {p : Pending} {f : Formula} {x : Lexeme}
    (h : x.token.IsSeparator) :
    step .items ⟨fs, [], p, .read f⟩ x = .ok (start (p.close f :: fs)) := by
  have hitems := (Token.items_eq_true_iff x.token).mpr h
  simp [step, afterOperand, hitems]

/-- Read to their end with separators, the lexemes leave these formulas in all. -/
def ReadsItems (r : Reader) (xs : List Lexeme) (hs : List Formula) : Prop :=
  ∃ p g gs, r.run .items xs = .ok ⟨gs, [], p, .read g⟩ ∧ hs = (p.close g :: gs).reverse

/-- The formulas completed before, the one that the first item completes, and those of the other
items. -/
def CompletesItems (r : Reader) (xs : List Lexeme) (hs : List Formula) : Prop :=
  ∃ first rest f fs, items r.brackets.length xs = first :: rest ∧ r.Completes first f ∧
    List.Forall₂ FormsPhrase rest fs ∧ hs = r.finished.reverse ++ f :: fs

section Steps

variable {r r' : Reader} {x : Lexeme} {xs : List Lexeme} {hs : List Formula}

theorem readsItems_nil_iff : r.ReadsItems [] hs ↔ r.CompletesItems [] hs := by
  constructor
  · rintro ⟨p, g, gs, hrun, rfl⟩
    cases hrun
    exact ⟨[], [], _, [], rfl, completes_nil_iff.mpr ⟨p, g, rfl, rfl⟩, .nil, List.reverse_cons⟩
  · rintro ⟨first, rest, f, fs, hitems, hcompletes, hrest, rfl⟩
    cases hitems
    cases hrest
    obtain ⟨p, g, hr, rfl⟩ := completes_nil_iff.mp hcompletes
    exact ⟨p, g, r.finished, congrArg Except.ok hr, List.reverse_cons.symm⟩

theorem not_readsItems_of_error {e : ParseError} (h : r.step .items x = .error e) :
    ¬ r.ReadsItems (x :: xs) hs := by
  rintro ⟨p, g, gs, hrun, _⟩
  rw [run, h] at hrun
  cases hrun

/-- Where no item ends, the lexeme belongs to the first one. -/
theorem completesItems_cons_iff (hcut : ¬ ((r.brackets.length : Int) = 0 ∧ x.token.IsSeparator)) :
    r.CompletesItems (x :: xs) hs ↔
      ∃ first rest f fs, items (r.brackets.length + x.token.nesting) xs = first :: rest ∧
        r.Completes (x :: first) f ∧ List.Forall₂ FormsPhrase rest fs ∧
          hs = r.finished.reverse ++ f :: fs := by
  obtain ⟨first, rest, hnext⟩ := exists_items_eq_cons (r.brackets.length + x.token.nesting) xs
  have hitems : items r.brackets.length (x :: xs) = (x :: first) :: rest := by
    rw [items, if_neg hcut, hnext]
    rfl
  rw [CompletesItems, hitems, hnext]
  constructor
  · rintro ⟨_, _, f, fs, heq, h⟩
    cases heq
    exact ⟨first, rest, f, fs, rfl, h⟩
  · rintro ⟨_, _, f, fs, heq, h⟩
    cases heq
    exact ⟨x :: first, rest, f, fs, rfl, h⟩

theorem not_completesItems_of_error {e : ParseError} (h : r.step .never x = .error e)
    (hcut : ¬ ((r.brackets.length : Int) = 0 ∧ x.token.IsSeparator)) :
    ¬ r.CompletesItems (x :: xs) hs := by
  rw [completesItems_cons_iff hcut]
  rintro ⟨first, rest, f, fs, _, hcompletes, _⟩
  exact not_completes_of_error h first f hcompletes

theorem Moves.completesItems_iff (h : Moves r x r')
    (hcut : ¬ ((r.brackets.length : Int) = 0 ∧ x.token.IsSeparator)) :
    r.CompletesItems (x :: xs) hs ↔ r'.CompletesItems xs hs := by
  rw [completesItems_cons_iff hcut, CompletesItems, h.length_brackets, h.finished_eq]
  simp only [h.completes_iff]

/-- Where an item ends, its formula is completed, and the next item is the first one from there. -/
theorem completesItems_separator_iff {fs : List Formula} {p : Pending} {g : Formula}
    (ht : x.token.IsSeparator) :
    CompletesItems ⟨fs, [], p, .read g⟩ (x :: xs) hs ↔
      (start (p.close g :: fs)).CompletesItems xs hs := by
  have hitems : items (([] : List OpenBracket).length : Int) (x :: xs) = [] :: items 0 xs := by
    rw [items, if_pos ⟨rfl, ht⟩]
    rfl
  constructor
  · rintro ⟨first, rest, f, fs', hcut, hcompletes, hrest, rfl⟩
    cases hitems.symm.trans hcut
    obtain ⟨p', g', hr, rfl⟩ := completes_nil_iff.mp hcompletes
    cases hr
    obtain ⟨first, rest, hnext⟩ := exists_items_eq_cons 0 xs
    rw [hnext] at hrest
    cases hrest with
    | cons hfirst hrest =>
      exact ⟨first, rest, _, _, hnext, completes_start_iff.mpr hfirst, hrest, by simp [start]⟩
  · rintro ⟨first, rest, f, fs', hnext, hcompletes, hrest, rfl⟩
    exact ⟨[], first :: rest, p.close g, f :: fs', hitems.trans (congrArg _ hnext),
      completes_nil_iff.mpr ⟨p, g, rfl, rfl⟩, .cons (completes_start_iff.mp hcompletes) hrest,
      by simp [start]⟩

theorem not_completesItems_wanted {fs : List Formula} {p : Pending} {negated : Bool}
    (ht : x.token.IsSeparator) :
    ¬ CompletesItems ⟨fs, [], p, .wanted negated⟩ (x :: xs) hs := by
  rintro ⟨first, rest, f, fs', hitems, hcompletes, _⟩
  rw [items, if_pos ⟨rfl, ht⟩] at hitems
  cases hitems
  obtain ⟨p', g, hr, _⟩ := completes_nil_iff.mp hcompletes
  cases hr

end Steps

/-- What is read with separators is what the items complete. -/
theorem readsItems_iff (xs : List Lexeme) : ∀ {r : Reader} {hs : List Formula},
    r.ReadsItems xs hs ↔ r.CompletesItems xs hs := by
  induction xs with
  | nil => exact readsItems_nil_iff
  | cons x xs ih =>
    intro r hs
    by_cases hcut : (r.brackets.length : Int) = 0 ∧ x.token.IsSeparator
    · obtain ⟨fs, bs, p, operand⟩ := r
      obtain rfl : bs = [] := List.length_eq_zero_iff.mp (Int.ofNat_eq_zero.mp hcut.1)
      cases operand with
      | wanted negated =>
        obtain ⟨t, place⟩ := x
        have herror : step .items ⟨fs, [], p, .wanted negated⟩ ⟨t, place⟩ =
            .error (.expectedFormula place) := by
          rcases hcut.2 with rfl | rfl <;> rfl
        exact iff_of_false (not_readsItems_of_error herror) (not_completesItems_wanted hcut.2)
      | read g =>
        rw [completesItems_separator_iff hcut.2, ← ih, ReadsItems, ReadsItems, run,
          step_items_separator hcut.2]
    · cases hstep : r.step .never x with
      | error e =>
        have herror := (step_items_eq hcut).trans hstep
        exact iff_of_false (not_readsItems_of_error herror)
          (not_completesItems_of_error hstep hcut)
      | ok r' =>
        rw [(step_eq_ok_iff.mp hstep).completesItems_iff hcut, ← ih, ReadsItems, ReadsItems, run,
          step_items_eq hcut, hstep]

theorem completesItems_start_iff {xs : List Lexeme} {hs : List Formula} :
    (start []).CompletesItems xs hs ↔ List.Forall₂ FormsPhrase (items 0 xs) hs := by
  constructor
  · rintro ⟨first, rest, f, fs, hitems, hcompletes, hrest, rfl⟩
    have hitems : items 0 xs = first :: rest := hitems
    rw [hitems]
    exact .cons (completes_start_iff.mp hcompletes) hrest
  · obtain ⟨first, rest, hitems⟩ := exists_items_eq_cons 0 xs
    rw [hitems]
    intro h
    cases h with
    | cons hfirst hrest =>
      exact ⟨first, rest, _, _, hitems, completes_start_iff.mpr hfirst, hrest, rfl⟩

theorem read_items_iff {scan : Scan} {hs : List Formula} :
    (∃ f gs, read .items scan = .ok (f, gs) ∧ hs = (f :: gs).reverse) ↔
      scan.stop.text = [] ∧ (start []).ReadsItems scan.lexemes hs := by
  unfold read ReadsItems
  cases (start []).run .items scan.lexemes with
  | error e => simp
  | ok r =>
    simp only [finish_eq_ok_iff, Except.ok.injEq]
    constructor
    · rintro ⟨f, gs, ⟨hstop, p, g, hr, rfl⟩, hhs⟩
      exact ⟨hstop, p, g, gs, hr, hhs⟩
    · rintro ⟨hstop, p, g, gs, hr, hhs⟩
      exact ⟨_, gs, ⟨hstop, p, g, hr, rfl⟩, hhs⟩

end Reader

/-! ## Texts -/

theorem Spells.parseFormula_iff {piece : List Char} {ts : List Token} (h : Spells piece ts)
    {f : Formula} : parseFormula (String.ofList piece) = .ok f ↔ Phrase .equivalence ts f := by
  constructor
  · intro hparse
    obtain ⟨fs, hread⟩ := parseFormula_eq_ok.mp hparse
    obtain ⟨r, hruns, hfinish⟩ := Reader.read_eq_ok_iff.mp hread
    obtain ⟨_, hphrase⟩ := (hruns.read (Reader.read_start [])).phrase hfinish
    have htokens := ((spells_iff .origin).mp h).2
    rw [Scan.ofText, String.toList_ofList, List.nil_append, htokens] at hphrase
    exact hphrase
  · intro hphrase
    refine SpellsPhrase.parseFormula_eq ⟨ts, ?_, hphrase⟩
    rwa [String.toList_ofList]

/-- The pieces read as formulas are the items as phrases. -/
theorem forall₂_parseFormula_iff {pieces : List (List Char)} {tss : List (List Lexeme)}
    (h : List.Forall₂ SpellsLexemes pieces tss) : ∀ {fs : List Formula},
    List.Forall₂ (fun piece f => parseFormula (String.ofList piece) = .ok f) pieces fs ↔
      List.Forall₂ FormsPhrase tss fs := by
  induction h with
  | nil =>
    intro fs
    rw [List.forall₂_nil_left_iff, List.forall₂_nil_left_iff]
  | cons hpiece _ ih =>
    intro fs
    cases fs with
    | nil => exact iff_of_false nofun nofun
    | cons f fs =>
      rw [List.forall₂_cons, List.forall₂_cons, Spells.parseFormula_iff hpiece, ih,
        FormsPhrase]

theorem not_phrase_nil (f : Formula) : ¬ Phrase .equivalence [] f := by
  intro h
  have hcompletes : (Reader.start []).Completes [] f := Reader.completes_start_iff.mpr h
  obtain ⟨p, g, hr, _⟩ := Reader.completes_nil_iff.mp hcompletes
  cases hr

theorem parseHypotheses_eq_ok_iff_items {text : String} {fs : List Formula}
    (hblank : ¬ text.toList.all Text.isBlank = true) :
    parseHypotheses text = .ok fs ↔ (Scan.ofText text).stop.text = [] ∧
      List.Forall₂ FormsPhrase (items 0 (Scan.ofText text).lexemes) fs := by
  rw [← Reader.completesItems_start_iff, ← Reader.readsItems_iff, ← Reader.read_items_iff,
    parseHypotheses, if_neg hblank]
  split
  · next f earlier hread => simp [hread, eq_comm]
  · next e hread => simp [hread]

/-- A text is read as a list of hypotheses if and only if it is blank and the list is empty, or it
is made of tokens and blanks and each of the pieces that it is cut into is read as a formula. -/
theorem parseHypotheses_eq_ok_iff (text : String) (fs : List Formula) :
    parseHypotheses text = .ok fs ↔
      (text.toList.all Text.isBlank = true ∧ fs = []) ∨
        ∃ pieces, CutInto 0 text.toList pieces ∧
          List.Forall₂ (fun piece f => parseFormula (String.ofList piece) = .ok f) pieces fs := by
  by_cases hblank : text.toList.all Text.isBlank = true
  · rw [parseHypotheses, if_pos hblank]
    constructor
    · intro h
      cases h
      exact Or.inl ⟨hblank, rfl⟩
    · rintro (⟨_, rfl⟩ | ⟨pieces, hcut, hpieces⟩)
      · rfl
      · -- the only piece is blank, and that is no formula
        have htokens := ((spells_iff .origin).mp (spells_nil_of_blank hblank)).2
        rw [forall₂_parseFormula_iff (hcut.spells_items .origin), List.map_eq_nil_iff.mp htokens]
          at hpieces
        cases hpieces with
        | cons hphrase => exact absurd hphrase (not_phrase_nil _)
  · rw [parseHypotheses_eq_ok_iff_items hblank]
    constructor
    · rintro ⟨hstop, hitems⟩
      have hspells := (spells_iff .origin).mpr ⟨hstop, rfl⟩
      obtain ⟨piece, pieces, hcut⟩ := hspells.exists_cutInto 0
      exact Or.inr ⟨_, hcut, (forall₂_parseFormula_iff (hcut.spells_items .origin)).mpr hitems⟩
    · rintro (⟨h, _⟩ | ⟨pieces, hcut, hpieces⟩)
      · exact absurd h hblank
      · obtain ⟨ts, hspells⟩ := hcut.spells
        exact ⟨((spells_iff .origin).mp hspells).1,
          (forall₂_parseFormula_iff (hcut.spells_items .origin)).mp hpieces⟩

end Turnstile
