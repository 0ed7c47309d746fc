import Turnstile.Proofs.Places

/-!
Where reading a formula fails. An error names the first place at which the text stops being the
beginning of a formula.

* `Viable`: the tokens are the beginning of a formula. What the reader has come through is viable
  (`Reader.Read.viable`), and it is no longer so with a token that the reader refuses
  (`Reader.Runs.not_viable`);
* `Reader.Opened`: which lexemes opened the brackets that are open. `Reader.Moves.opened`: each move
  keeps it. The last of them is `InnermostOpen` in the text;
* `Found`: what stands at a place, a token, another character or the end;
* `Offence`: the first place where a text stops being the beginning of a formula;
* `ParseError.Reports`: the kind of an error, by what was found;
* `parseFormula_error_located`: all of it for a text that is not read as a formula.
-/

namespace Turnstile

/-! ## Beginnings of formulas -/

/-- Some formula starts with the tokens. -/
def Viable (ts : List Token) : Prop := ∃ us f, Phrase .equivalence (ts ++ us) f

namespace Reader

variable {r : Reader} {ts : List Token}

theorem AtHand.exists_phrase {operand : Operand} (h : AtHand operand ts) :
    ∃ us f, Phrase .primed (ts ++ us) f := by
  cases h with
  | wanted hs => exact ⟨[.atom 'A'], _, .primed (hs.phrase (.signed (.atom 'A')))⟩
  | read h => exact ⟨[], _, by simpa using h⟩

/-- Closing all brackets behind a formula completes another one. -/
theorem Inside.exists_phrase {bs : List OpenBracket} {us : List Token} {f : Formula}
    (hb : Inside bs ts) (h : Phrase .equivalence us f) :
    ∃ vs g, Phrase .equivalence (ts ++ (us ++ vs)) g := by
  induction hb generalizing us f with
  | nil => exact ⟨[], f, by simpa using h⟩
  | cons _ hp hs ih =>
    obtain ⟨vs, g, hphrase⟩ := ih (hp.close (.primed (hs.phrase (.signed h.group))))
    exact ⟨.closing :: vs, g, by simpa using hphrase⟩

theorem Read.viable (h : Read r ts) : Viable ts := by
  cases h with
  | intro hb hp ho =>
    obtain ⟨us, f, hoperand⟩ := ho.exists_phrase
    obtain ⟨vs, g, hphrase⟩ := hb.exists_phrase (hp.close hoperand)
    exact ⟨us ++ vs, g, by simpa using hphrase⟩

/-- Any formula that starts with the tokens would have been read on. -/
theorem Runs.not_viable {xs : List Lexeme} {x : Lexeme} {e : ParseError}
    (h : (start []).Runs xs r) (hstep : r.step .never x = .error e) :
    ¬ Viable (xs.map Lexeme.token ++ [x.token]) := by
  rintro ⟨us, f, hphrase⟩
  -- the places of the tokens that would follow do not matter
  let later := us.map fun t => Lexeme.mk t x.span
  have htokens : (xs ++ x :: later).map Lexeme.token =
      xs.map Lexeme.token ++ [x.token] ++ us := by
    simp [later, Function.comp_def]
  obtain ⟨p, g, hruns, _⟩ := hphrase.reading _ htokens [] [] .none ⟨rfl, rfl, rfl⟩
  have hrun := run_append (start []) xs (x :: later)
  rw [h, Except.bind, run, hstep] at hrun
  cases hrun.symm.trans hruns

end Reader

/-! ## Open brackets -/

/-- Every bracket is closed after it was opened, and none is closed otherwise. -/
inductive Balanced : List Token → Prop
  | nil : Balanced []
  | other {t : Token} (hopening : t ≠ .opening) (hclosing : t ≠ .closing) : Balanced [t]
  | group {ts : List Token} (h : Balanced ts) : Balanced (.opening :: ts ++ [.closing])
  | append {ts us : List Token} (h : Balanced ts) (h' : Balanced us) : Balanced (ts ++ us)

namespace Reader

variable {r r' : Reader} {xs ys : List Lexeme}

/-- The brackets stand among the lexemes, and between them is nothing else that is open. -/
inductive Opened : List OpenBracket → List Lexeme → Prop
  | nil {xs : List Lexeme} (h : Balanced (xs.map Lexeme.token)) : Opened [] xs
  | cons {b : OpenBracket} {bs : List OpenBracket} {xs ys : List Lexeme} (h : Opened bs xs)
      (hys : Balanced (ys.map Lexeme.token)) : Opened (b :: bs) (xs ++ ⟨.opening, b.place⟩ :: ys)

theorem opened_start (fs : List Formula) : Opened (start fs).brackets [] := .nil .nil

/-- The bracket opened last. -/
def IsInnermost (r : Reader) (bracket : Span) : Prop :=
  ∃ b bs, r.brackets = b :: bs ∧ b.place = bracket

theorem Opened.append {bs : List OpenBracket} (h : Opened bs xs)
    (hys : Balanced (ys.map Lexeme.token)) : Opened bs (xs ++ ys) := by
  cases h with
  | nil h =>
    refine .nil ?_
    rw [List.map_append]
    exact h.append hys
  | cons h hxs =>
    rw [List.append_assoc, List.cons_append]
    refine .cons h ?_
    rw [List.map_append]
    exact hxs.append hys

theorem Opened.opening {bs : List OpenBracket} (h : Opened bs xs) (b : OpenBracket) :
    Opened (b :: bs) (xs ++ [⟨.opening, b.place⟩]) :=
  .cons h .nil

theorem Opened.closing {b : OpenBracket} {bs : List OpenBracket} (h : Opened (b :: bs) xs)
    (place : Span) : Opened bs (xs ++ [⟨.closing, place⟩]) := by
  cases h with
  | @cons _ _ xs ys h hys =>
    rw [List.append_assoc]
    refine h.append ?_
    simpa using hys.group

theorem Moves.opened {x : Lexeme} (h : Moves r x r') (hr : Opened r.brackets xs) :
    Opened r'.brackets (xs ++ [x]) := by
  cases h with
  | opening => exact hr.opening _
  | closing => exact hr.closing _
  | _ => exact hr.append (.other nofun nofun)

theorem Runs.opened (h : r.Runs ys r') (hr : Opened r.brackets xs) :
    Opened r'.brackets (xs ++ ys) := by
  induction ys generalizing r xs with
  | nil =>
    cases h
    rwa [List.append_nil]
  | cons y ys ih =>
    rw [Runs, run] at h
    split at h
    · next hstep =>
      rw [List.append_cons]
      exact ih h ((step_eq_ok_iff.mp hstep).opened hr)
    · cases h

end Reader

/-- The bracket stands in the text and all brackets behind it are closed there. -/
inductive InnermostOpen (text : List Char) (bracket : Span) : Prop
  | intro {outer inner : List Char} {ts us : List Token}
      (htext : text = outer ++ (bracket.text ++ inner))
      (hplace : bracket = .after outer bracket.text)
      (houter : Spells outer ts) (hbracket : Token.opening.SpelledBy bracket.text)
      (hinner : Spells inner us) (hbalanced : Balanced us)

theorem Scan.exists_split_innermostOpen {text : String} {xs ys zs : List Lexeme} {bracket : Span}
    (h : (ofText text).lexemes = xs ++ ⟨.opening, bracket⟩ :: ys ++ zs)
    (hys : Balanced (ys.map Lexeme.token)) :
    ∃ before rest, text.toList = before ++ rest ∧
      Spells before ((xs ++ ⟨.opening, bracket⟩ :: ys).map Lexeme.token) ∧
        Next (.past .origin before) rest ⟨zs, (ofText text).stop⟩ ∧
          InnermostOpen before bracket := by
  rw [List.append_assoc, List.cons_append] at h
  -- the text is split at the bracket, and what follows it once more
  obtain ⟨outer, _, htext, houter, hnext⟩ := exists_split h
  obtain ⟨after, rfl, hbracket, hplace, hafter⟩ := hnext.of_cons
  obtain ⟨inner, rest, rfl, hinner, hnext⟩ := exists_split (congrArg Scan.lexemes hafter)
  rw [Point.span_past_origin] at hplace
  refine ⟨outer ++ (bracket.text ++ inner), rest, ?_, ?_, ?_, ?_⟩
  · simpa using htext
  · rw [List.map_append, List.map_cons]
    exact houter.append (.token hbracket hinner)
  · rwa [hafter, Point.past_past, Point.past_past] at hnext
  · exact .intro rfl hplace houter hbracket hinner hys

/-- Behind the lexemes that the reader has come through, the text goes on with the other ones, and
the bracket it has opened last is the innermost that is open there. -/
theorem Reader.Opened.exists_split {text : String} {r : Reader} {xs ys : List Lexeme}
    (h : Opened r.brackets xs) (hsplit : (Scan.ofText text).lexemes = xs ++ ys) :
    ∃ before rest, text.toList = before ++ rest ∧ Spells before (xs.map Lexeme.token) ∧
      Scan.Next (.past .origin before) rest ⟨ys, (Scan.ofText text).stop⟩ ∧
        ∀ bracket, r.IsInnermost bracket → InnermostOpen before bracket := by
  generalize hbrackets : r.brackets = bs at h
  cases h with
  | nil =>
    obtain ⟨before, rest, htext, hspells, hnext⟩ := Scan.exists_split hsplit
    refine ⟨before, rest, htext, hspells, hnext, ?_⟩
    rintro bracket ⟨b, bs, hb, rfl⟩
    cases hbrackets.symm.trans hb
  | cons h hys =>
    obtain ⟨before, rest, htext, hspells, hnext, hopen⟩ :=
      Scan.exists_split_innermostOpen hsplit hys
    refine ⟨before, rest, htext, hspells, hnext, ?_⟩
    rintro bracket ⟨b, bs, hb, rfl⟩
    cases hbrackets.symm.trans hb
    exact hopen

/-! ## What is found at a place -/

/-- What stands at a place of a text. -/
inductive Found where
  | token (t : Token)
  | other (c : Char)
  | ending
  deriving DecidableEq, Repr

/-- What a text has right behind the characters `before`, and the span of it. -/
inductive Found.At (text before : List Char) : Found → Span → Prop
  | token {t : Token} {place : Span} (h : place.StandsAfter before text)
      (ht : t.SpelledBy place.text) : At text before (.token t) place
  | other {c : Char} {rest : List Char} (htext : text = before ++ c :: rest)
      (h : StartsNothing (c :: rest)) : At text before (.other c) (.after before [c])
  | ending (htext : text = before) : At text before .ending (.after before [])

theorem Found.At.standsAfter {text before : List Char} {found : Found} {place : Span}
    (h : found.At text before place) : place.StandsAfter before text := by
  cases h with
  | token h => exact h
  | @other c rest htext => exact ⟨rfl, rest, htext⟩
  | ending htext => exact ⟨rfl, [], by rw [htext]; exact (List.append_nil _).symm⟩

/-- The bracket is a token of every text that goes on from there. -/
theorem InnermostOpen.found_at {before : List Char} {bracket : Span}
    (h : InnermostOpen before bracket) (rest : List Char) :
    ∃ outer ts, Spells outer ts ∧ Found.At (before ++ rest) outer (.token .opening) bracket := by
  cases h with
  | @intro outer inner ts us htext hplace houter hbracket =>
    refine ⟨outer, ts, houter, .token ⟨hplace, inner ++ rest, ?_⟩ hbracket⟩
    rw [htext, List.append_assoc, List.append_assoc]

namespace Scan

/-- What comes first in a text that is cut. -/
def found : Scan → Found
  | ⟨x :: _, _⟩ => .token x.token
  | ⟨[], _, _, _, c :: _⟩ => .other c
  | ⟨[], _, _, _, []⟩ => .ending

def place : Scan → Span
  | ⟨x :: _, _⟩ => x.span
  | ⟨[], stop⟩ => stop

theorem Next.found_at {before rest : List Char} {scan : Scan}
    (h : Next (.past .origin before) rest scan) :
    scan.found.At (before ++ rest) before scan.place := by
  cases h with
  | token hword rest => exact .token ⟨Point.span_past_origin _ _, rest, rfl⟩ hword
  | stop h =>
    rw [Point.span_past_origin]
    cases rest with
    | nil => exact .ending (List.append_nil _)
    | cons c rest => exact .other rfl h

end Scan

/-! ## Errors -/

/-- The kind and the places of an error, where something is found in place of what was wanted. -/
inductive ParseError.Reports (IsOpen : Span → Prop) : ParseError → Found → Span → Prop
  | expectedFormula (t : Token) (place : Span) :
      Reports IsOpen (.expectedFormula place) (.token t) place
  | expectedFormulaAtEnd (place : Span) : Reports IsOpen (.expectedFormula place) .ending place
  | unexpectedChar (c : Char) (place : Span) :
      Reports IsOpen (.unexpectedChar place c) (.other c) place
  | trailingInput (t : Token) (place : Span) :
      Reports IsOpen (.trailingInput place) (.token t) place
  | missingClose {bracket : Span} (h : IsOpen bracket) (t : Token) (place : Span) :
      Reports IsOpen (.missingClose bracket place.text) (.token t) place
  | missingCloseAtEnd {bracket : Span} (h : IsOpen bracket) (place : Span) :
      Reports IsOpen (.missingClose bracket "end of input".toList) .ending place

theorem ParseError.Reports.mono {P Q : Span → Prop} {e : ParseError} {found : Found} {place : Span}
    (h : e.Reports P found place) (hpq : ∀ bracket, P bracket → Q bracket) :
    e.Reports Q found place := by
  cases h with
  | expectedFormula t => exact .expectedFormula t _
  | expectedFormulaAtEnd => exact .expectedFormulaAtEnd _
  | unexpectedChar c => exact .unexpectedChar c _
  | trailingInput t => exact .trailingInput t _
  | missingClose h t => exact .missingClose (hpq _ h) t _
  | missingCloseAtEnd h => exact .missingCloseAtEnd (hpq _ h) _

namespace Reader

variable {r : Reader} {e : ParseError}

/-- The reader fails at what comes next. -/
inductive Rejects (r : Reader) : Scan → ParseError → Prop
  | step {x : Lexeme} {e : ParseError} (h : r.step .never x = .error e) (xs : List Lexeme)
      (stop : Span) : Rejects r ⟨x :: xs, stop⟩ e
  | finish {stop : Span} {e : ParseError} (h : r.finish stop = .error e) : Rejects r ⟨[], stop⟩ e

theorem exists_rejects {xs : List Lexeme} {stop : Span}
    (h : (r.run .never xs).bind (fun r' => r'.finish stop) = .error e) :
    ∃ us ys r', xs = us ++ ys ∧ r.Runs us r' ∧ r'.Rejects ⟨ys, stop⟩ e := by
  induction xs generalizing r with
  | nil => exact ⟨[], [], r, rfl, rfl, .finish h⟩
  | cons x xs ih =>
    rw [run_cons] at h
    cases hstep : r.step .never x with
    | error e' =>
      rw [hstep] at h
      cases h
      exact ⟨[], x :: xs, r, rfl, rfl, .step hstep xs stop⟩
    | ok r' =>
      rw [hstep] at h
      obtain ⟨us, ys, r'', rfl, hruns, hrejects⟩ := ih h
      exact ⟨x :: us, ys, r'', rfl, (step_eq_ok_iff.mp hstep).runs.append hruns, hrejects⟩

theorem Rejects.reports {scan : Scan} (h : r.Rejects scan e) :
    e.Reports r.IsInnermost scan.found scan.place := by
  obtain ⟨fs, bs, p, operand⟩ := r
  cases h with
  | @step x _ h =>
    obtain ⟨t, place⟩ := x
    -- of the token it only matters that it is refused; the kind of the error is the reader's
    cases operand with
    | wanted negated =>
      cases t <;> cases h
      all_goals exact .expectedFormula _ place
    | read f =>
      cases bs with
      | nil =>
        cases t <;> cases h
        all_goals exact .trailingInput _ place
      | cons b bs =>
        cases t <;> cases h
        all_goals exact .missingClose ⟨b, bs, rfl, rfl⟩ _ place
  | @finish stop _ h =>
    obtain ⟨_, _, _, found⟩ := stop
    cases found with
    | cons c =>
      cases h
      exact .unexpectedChar c _
    | nil =>
      cases operand with
      | wanted negated =>
        cases h
        exact .expectedFormulaAtEnd _
      | read f =>
        cases bs with
        | nil => cases h
        | cons b bs =>
          cases h
          exact .missingCloseAtEnd ⟨b, bs, rfl, rfl⟩ _

/-- A token that the reader fails at cannot stand there in any formula. -/
theorem Rejects.not_viable {xs : List Lexeme} {scan : Scan} (h : r.Rejects scan e)
    (hruns : (start []).Runs xs r) {t : Token} (ht : scan.found = .token t) :
    ¬ Viable (xs.map Lexeme.token ++ [t]) := by
  cases h with
  | step h =>
    cases ht
    exact hruns.not_viable h
  | @finish stop _ h =>
    obtain ⟨_, _, _, found⟩ := stop
    cases found <;> cases ht

end Reader

/-! ## Texts -/

/-- The first place where the text stops being the beginning of a formula: what stands before it
spells tokens that some formula starts with, and no formula goes on with a token that stands
there. -/
structure Offence (text before : List Char) (ts : List Token) (found : Found) (place : Span) :
    Prop where
  found_at : found.At text before place
  spells : Spells before ts
  viable : Viable ts
  not_viable : ∀ t, found = .token t → ¬ Viable (ts ++ [t])

theorem Token.SpelledBy.ne_nil {t : Token} {word : List Char} (h : t.SpelledBy word) :
    word ≠ [] := by
  rintro rfl
  exact startsNothing_nil.token t [] [] h rfl

namespace ParseError

/-- The span of the error is that of a token of the text or of the unexpected character; it is empty
just where a formula is wanted at the end of the text. -/
def IsPlaced (e : ParseError) (text : List Char) : Prop :=
  ∃ (before : List Char) (ts : List Token) (found : Found), Spells before ts ∧
    found.At text before e.place ∧ (∀ c, found = .other c → e = .unexpectedChar e.place c) ∧
      (e.place.text = [] ↔ e = .expectedFormula (.after text []))

section Placed

variable {e : ParseError} {text before : List Char} {ts : List Token} {found : Found} {place : Span}

/-- The error points at a token. -/
theorem isPlaced_token (hspells : Spells before ts) (t : Token)
    (hfound : Found.At text before (.token t) e.place) : e.IsPlaced text := by
  have hnonempty : e.place.text ≠ [] := by
    cases hfound with
    | token _ ht => exact ht.ne_nil
  refine ⟨before, ts, .token t, hspells, hfound, nofun, iff_of_false hnonempty ?_⟩
  rintro rfl
  exact hnonempty rfl

theorem Reports.isPlaced (h : e.Reports (InnermostOpen before) found place)
    (hspells : Spells before ts) (hfound : found.At text before place) : e.IsPlaced text := by
  cases h with
  | expectedFormula t | trailingInput t => exact isPlaced_token hspells t hfound
  | expectedFormulaAtEnd =>
    refine ⟨before, ts, .ending, hspells, hfound, nofun, ?_⟩
    cases hfound with
    | ending htext =>
      rw [htext]
      exact iff_of_true rfl rfl
  | unexpectedChar c =>
    refine ⟨before, ts, .other c, hspells, hfound, ?_, ?_⟩
    · rintro _ ⟨⟩
      rfl
    · cases hfound
      exact iff_of_false nofun nofun
  | missingClose hopen | missingCloseAtEnd hopen =>
    -- the error does not point at the offence, but at a token before it
    obtain ⟨rest, rfl⟩ := hfound.standsAfter.text_eq
    obtain ⟨outer, us, houter, hbracket⟩ := hopen.found_at (place.text ++ rest)
    exact isPlaced_token houter .opening hbracket

theorem IsPlaced.liesIn {text : String} (h : e.IsPlaced text.toList) : e.place.LiesIn text := by
  obtain ⟨_, _, _, _, hfound, _⟩ := h
  exact hfound.standsAfter.liesIn

end Placed

end ParseError

theorem parseFormula_eq_error {text : String} {e : ParseError} :
    parseFormula text = .error e ↔ Reader.read .never (.ofText text) = .error e := by
  unfold parseFormula
  split <;> simp_all

/-- If a text is not read as a formula, the error is about what is found at the first offence in it.
It points at this place, or else at the innermost bracket that is still open there, and its bytes
are whole characters of the text. -/
theorem parseFormula_error_located {text : String} {e : ParseError}
    (h : parseFormula text = .error e) :
    (∃ before ts found place, Offence text.toList before ts found place ∧
        e.Reports (InnermostOpen before) found place) ∧
      e.IsPlaced text.toList ∧ e.place.LiesIn text := by
  rw [parseFormula_eq_error, Reader.read_eq_bind] at h
  obtain ⟨xs, ys, r, hsplit, hruns, hrejects⟩ := Reader.exists_rejects h
  have hread := hruns.read (Reader.read_start [])
  have hopened := hruns.opened (Reader.opened_start [])
  obtain ⟨before, rest, htext, hspells, hnext, hinnermost⟩ := hopened.exists_split hsplit
  have hreports := hrejects.reports.mono hinnermost
  have hfound := hnext.found_at
  rw [← htext] at hfound
  have hoffence : Offence text.toList before (xs.map Lexeme.token) _ _ :=
    ⟨hfound, hspells, hread.viable, fun _ => hrejects.not_viable hruns⟩
  have hplaced := hreports.isPlaced hspells hfound
  exact ⟨⟨before, _, _, _, hoffence, hreports⟩, hplaced, hplaced.liesIn⟩

/-- The bracket pointed at is not the one opened last, which has been closed, and the sign before it
takes two bytes. -/
theorem parseFormula_error_located_outer :
    let text := "¬(A v [¬B'] , C"
    let e : ParseError := .missingClose ⟨2, 2, 3, ['(']⟩ [',']
    parseFormula text = .error e ∧
      (∃ before ts found place, Offence text.toList before ts found place ∧
        e.Reports (InnermostOpen before) found place) ∧
      e.IsPlaced text.toList ∧ e.place.LiesIn text :=
  ⟨rfl, parseFormula_error_located rfl⟩

end Turnstile
