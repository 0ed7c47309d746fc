import Mathlib.Data.List.Forall2
import Turnstile.Proofs.Places

/-!
Two texts that spell the same tokens. Which spelling stands for a token, and the blanks around it,
make no difference to what is read; an error has the same kind in both and points at the same token.

* `Agree`: both readings succeed with related results, or both fail with errors of the same kind at
  related places. The relation on places is a parameter, since the reader only passes them on;
* `Reader.Corresponds`: two readers that differ in the places of their brackets alone.
  `Reader.Corresponds.step`, `Reader.Corresponds.run` and `Reader.Corresponds.finish`: so they stay
  while they go through lexemes of the same tokens;
* `SamePlace`: places of the same token in two texts, or the ends of both;
* `parse_respelled`: the statement on texts, for formulas and for lists of hypotheses.
-/

namespace Turnstile

variable {R : Span → Span → Prop}

/-! ## Places that are passed on -/

/-- Errors of the same kind at related places. For an open bracket what was found is related as
well: lexemes at related places, or the end in both. There is no case for an unexpected character,
which a text made of tokens does not have. -/
inductive ParseError.Corresponds (R : Span → Span → Prop) : ParseError → ParseError → Prop
  | expectedFormula {place place' : Span} (h : R place place') :
      Corresponds R (.expectedFormula place) (.expectedFormula place')
  | missingClose {bracket bracket' place place' : Span} (h : R bracket bracket')
      (hfound : R place place') :
      Corresponds R (.missingClose bracket place.text) (.missingClose bracket' place'.text)
  | missingCloseAtEnd {bracket bracket' : Span} (h : R bracket bracket') :
      Corresponds R (.missingClose bracket "end of input".toList)
        (.missingClose bracket' "end of input".toList)
  | trailingInput {place place' : Span} (h : R place place') :
      Corresponds R (.trailingInput place) (.trailingInput place')

/-- Results related by `P`, or errors of the same kind at places related by `R`. -/
inductive Agree {α β : Type} (R : Span → Span → Prop) (P : α → β → Prop) :
    Except ParseError α → Except ParseError β → Prop
  | ok {a : α} {b : β} (h : P a b) : Agree R P (.ok a) (.ok b)
  | error {e e' : ParseError} (h : e.Corresponds R e') : Agree R P (.error e) (.error e')

theorem Agree.bind {α α' β β' : Type} {P : α → α' → Prop} {Q : β → β' → Prop}
    {result : Except ParseError α} {result' : Except ParseError α'} {f : α → Except ParseError β}
    {f' : α' → Except ParseError β'} (h : Agree R P result result')
    (hf : ∀ a a', P a a' → Agree R Q (f a) (f' a')) :
    Agree R Q (result.bind f) (result'.bind f') := by
  cases h with
  | ok h => exact hf _ _ h
  | error he => exact .error he

/-- The same token at related places. -/
inductive Lexeme.Corresponds (R : Span → Span → Prop) : Lexeme → Lexeme → Prop
  | intro (t : Token) {place place' : Span} (h : R place place') :
      Corresponds R ⟨t, place⟩ ⟨t, place'⟩

inductive OpenBracket.Corresponds (R : Span → Span → Prop) : OpenBracket → OpenBracket → Prop
  | intro {place place' : Span} (h : R place place') (negated : Bool) (outside : Pending) :
      Corresponds R ⟨place, negated, outside⟩ ⟨place', negated, outside⟩

namespace Reader

/-- The readers differ at most in the places of their brackets, and these are related. -/
inductive Corresponds (R : Span → Span → Prop) : Reader → Reader → Prop
  | intro {bs bs' : List OpenBracket} (h : List.Forall₂ (OpenBracket.Corresponds R) bs bs')
      (fs : List Formula) (p : Pending) (operand : Operand) :
      Corresponds R ⟨fs, bs, p, operand⟩ ⟨fs, bs', p, operand⟩

theorem corresponds_start (fs : List Formula) : (start fs).Corresponds R (start fs) :=
  .intro .nil fs .none (.wanted false)

section Steps

variable {x x' : Lexeme} {bs bs' : List OpenBracket}

theorem agree_beforeOperand (h : List.Forall₂ (OpenBracket.Corresponds R) bs bs')
    (hx : x.Corresponds R x') (fs : List Formula) (p : Pending) (operand : Operand)
    (negated : Bool) :
    Agree R (Corresponds R) (beforeOperand ⟨fs, bs, p, operand⟩ negated x)
      (beforeOperand ⟨fs, bs', p, operand⟩ negated x') := by
  cases hx with
  | intro t hplace =>
    cases t with
    | atom letter => exact .ok (.intro h _ _ _)
    | not => exact .ok (.intro h _ _ _)
    | opening => exact .ok (.intro (.cons (.intro hplace negated p) h) _ _ _)
    | _ => exact .error (.expectedFormula hplace)

theorem agree_afterOperand (separates : Separator)
    (h : List.Forall₂ (OpenBracket.Corresponds R) bs bs') (hx : x.Corresponds R x')
    (fs : List Formula) (p : Pending) (operand : Operand) (f : Formula) :
    Agree R (Corresponds R) (afterOperand separates ⟨fs, bs, p, operand⟩ f x)
      (afterOperand separates ⟨fs, bs', p, operand⟩ f x') := by
  cases hx with
  | intro t hplace =>
    cases h with
    | nil =>
      cases hseparates : separates t with
      | true =>
        simp only [afterOperand, hseparates, List.isEmpty_nil, Bool.and_true, if_true]
        exact .ok (corresponds_start _)
      | false =>
        simp only [afterOperand, hseparates, Bool.and_false]
        cases t with
        | prime | and | or | implies | iff => exact .ok (.intro .nil _ _ _)
        | _ => exact .error (.trailingInput hplace)
    | cons hb h =>
      have hbrackets := List.Forall₂.cons hb h
      cases t with
      | prime | and | or | implies | iff => exact .ok (.intro hbrackets _ _ _)
      | closing =>
        cases hb
        exact .ok (.intro h _ _ _)
      | _ =>
        cases hb with
        | intro hbracket => exact .error (.missingClose hbracket hplace)

end Steps

namespace Corresponds

variable {r r' : Reader}

theorem step (hr : r.Corresponds R r') (separates : Separator) {x x' : Lexeme}
    (hx : x.Corresponds R x') :
    Agree R (Corresponds R) (r.step separates x) (r'.step separates x') := by
  cases hr with
  | intro h fs p operand =>
    cases operand with
    | wanted negated => exact agree_beforeOperand h hx fs p _ negated
    | read f => exact agree_afterOperand separates h hx fs p _ f

/-- The lexemes are gone through in step. -/
theorem run (hr : r.Corresponds R r') (separates : Separator) {xs xs' : List Lexeme}
    (h : List.Forall₂ (Lexeme.Corresponds R) xs xs') :
    Agree R (Corresponds R) (r.run separates xs) (r'.run separates xs') := by
  induction h generalizing r r' with
  | nil => exact .ok hr
  | cons hx _ ih =>
    rw [run_cons, run_cons]
    exact (hr.step separates hx).bind fun _ _ hnext => ih hnext

theorem finish (hr : r.Corresponds R r') {stop stop' : Span} (h : R stop stop')
    (hstop : stop.text = []) (hstop' : stop'.text = []) :
    Agree R Eq (r.finish stop) (r'.finish stop') := by
  unfold Reader.finish
  rw [hstop, hstop']
  cases hr with
  | intro hbrackets fs p operand =>
    cases operand with
    | wanted negated => exact .error (.expectedFormula h)
    | read f =>
      cases hbrackets with
      | nil => exact .ok rfl
      | cons hb =>
        cases hb with
        | intro hbracket => exact .error (.missingCloseAtEnd hbracket)

end Corresponds

theorem agree_read (separates : Separator) {scan scan' : Scan}
    (h : List.Forall₂ (Lexeme.Corresponds R) scan.lexemes scan'.lexemes)
    (hplaces : R scan.stop scan'.stop) (hstop : scan.stop.text = [])
    (hstop' : scan'.stop.text = []) :
    Agree R Eq (read separates scan) (read separates scan') := by
  have hrun := (corresponds_start []).run separates h
  rw [read_eq_bind, read_eq_bind]
  exact hrun.bind fun _ _ hr => hr.finish hplaces hstop hstop'

end Reader

/-! ## Places of the same token -/

/-- The place is that of a token in the text, behind the tokens that come before it. -/
def Span.Covers (place : Span) (text : List Char) (earlier : List Token) (t : Token) : Prop :=
  ∃ before, place.StandsAfter before text ∧ Spells before earlier ∧ t.SpelledBy place.text

/-- The places are those of one token of the list, or the ends of both texts. -/
inductive SamePlace (ts : List Token) (text text' : List Char) : Span → Span → Prop
  | token {earlier later : List Token} {t : Token} {place place' : Span}
      (hts : ts = earlier ++ t :: later) (h : place.Covers text earlier t)
      (h' : place'.Covers text' earlier t) : SamePlace ts text text' place place'
  | stop : SamePlace ts text text' (.after text []) (.after text' [])

section Texts

variable {text text' : String} {ts : List Token}

theorem Scan.covers_lexeme {x : Lexeme} {xs ys : List Lexeme}
    (h : (ofText text).lexemes = xs ++ x :: ys) :
    x.span.Covers text.toList (xs.map Lexeme.token) x.token :=
  exists_standsAfter_lexeme h

/-- From any two lexemes on that stand behind the same tokens. -/
theorem Scan.corresponds_lexemes {xs ys xs' ys' : List Lexeme}
    (h : (ofText text).lexemes = xs ++ ys) (h' : (ofText text').lexemes = xs' ++ ys')
    (htokens : (ofText text).lexemes.map Lexeme.token = ts)
    (hearlier : xs.map Lexeme.token = xs'.map Lexeme.token)
    (hlater : ys.map Lexeme.token = ys'.map Lexeme.token) :
    List.Forall₂ (Lexeme.Corresponds (SamePlace ts text.toList text'.toList)) ys ys' := by
  induction ys generalizing xs xs' ys' with
  | nil =>
    cases List.map_eq_nil_iff.mp hlater.symm
    exact .nil
  | cons y ys ih =>
    obtain ⟨⟨t, place'⟩, ys', rfl, rfl, hrest⟩ := List.map_eq_cons_iff.mp hlater.symm
    have hsplit : ts = xs.map Lexeme.token ++ y.token :: ys.map Lexeme.token := by
      rw [← htokens, h, List.map_append, List.map_cons]
    have hcovers' := covers_lexeme h'
    rw [← hearlier] at hcovers'
    have hplaces := SamePlace.token hsplit (covers_lexeme h) hcovers'
    have hearlier' : (xs ++ [y]).map Lexeme.token =
        (xs' ++ [Lexeme.mk y.token place']).map Lexeme.token := by
      rw [List.map_append, List.map_append, hearlier]
      rfl
    rw [List.append_cons] at h h'
    exact .cons (.intro y.token hplaces) (ih h h' hearlier' hrest.symm)

theorem Spells.all_isBlank {cs : List Char} (h : Spells cs []) : cs.all Text.isBlank = true := by
  generalize hts : ([] : List Token) = ts at h
  induction h with
  | nil => rfl
  | blank hc _ ih => exact Bool.and_eq_true_iff.mpr ⟨hc, ih hts⟩
  | token => cases hts

theorem Spells.all_isBlank_iff {cs : List Char} (h : Spells cs ts) :
    cs.all Text.isBlank = true ↔ ts = [] := by
  constructor
  · intro hblank
    rw [← ((spells_iff .origin).mp h).2, ((spells_iff .origin).mp (spells_nil_of_blank hblank)).2]
  · rintro rfl
    exact h.all_isBlank

theorem agree_read_ofText (h : Spells text.toList ts) (h' : Spells text'.toList ts)
    (separates : Separator) :
    Agree (SamePlace ts text.toList text'.toList) Eq (Reader.read separates (.ofText text))
      (Reader.read separates (.ofText text')) := by
  obtain ⟨hstop, htokens⟩ := (spells_iff .origin).mp h
  obtain ⟨hstop', htokens'⟩ := (spells_iff .origin).mp h'
  have hplaces : SamePlace ts text.toList text'.toList (Scan.ofText text).stop
      (Scan.ofText text').stop := by
    rw [Scan.stop_eq_of_text_eq_nil hstop, Scan.stop_eq_of_text_eq_nil hstop']
    exact .stop
  have hlexemes := Scan.corresponds_lexemes (List.nil_append _).symm (List.nil_append _).symm
    htokens rfl (htokens.trans htokens'.symm)
  exact Reader.agree_read separates hlexemes hplaces hstop hstop'

theorem parseFormula_eq_bind (text : String) :
    parseFormula text =
      (Reader.read .never (.ofText text)).bind fun result => .ok result.1 := by
  unfold parseFormula
  cases Reader.read .never (.ofText text) <;> rfl

theorem parseHypotheses_eq_bind {text : String} (h : ¬ text.toList.all Text.isBlank = true) :
    parseHypotheses text =
      (Reader.read .items (.ofText text)).bind fun result =>
        .ok (result.1 :: result.2).reverse := by
  rw [parseHypotheses, if_neg h]
  cases Reader.read .items (.ofText text) <;> rfl

/-- Two texts that spell the same tokens are read as the same formula and as the same hypotheses. If
this fails for one, it fails for the other with an error of the same kind, which points at the same
token or at the end of the text in both. -/
theorem parse_respelled (h : Spells text.toList ts) (h' : Spells text'.toList ts) :
    Agree (SamePlace ts text.toList text'.toList) Eq (parseFormula text) (parseFormula text') ∧
      Agree (SamePlace ts text.toList text'.toList) Eq (parseHypotheses text)
        (parseHypotheses text') := by
  constructor
  · rw [parseFormula_eq_bind, parseFormula_eq_bind]
    refine (agree_read_ofText h h' .never).bind ?_
    rintro result _ rfl
    exact .ok rfl
  · have hsame := h.all_isBlank_iff.trans h'.all_isBlank_iff.symm
    by_cases hblank : text.toList.all Text.isBlank = true
    · rw [parseHypotheses, parseHypotheses, if_pos hblank, if_pos (hsame.mp hblank)]
      exact .ok rfl
    · rw [parseHypotheses_eq_bind hblank, parseHypotheses_eq_bind (mt hsame.mpr hblank)]
      refine (agree_read_ofText h h' .items).bind ?_
      rintro result _ rfl
      exact .ok rfl

/-- As a formula the list ends at its comma, and as hypotheses its bracket stays open. -/
theorem parse_respelled_list :
    let ts : List Token := [.atom 'A', .comma, .opening, .atom 'B', .iff, .atom 'C']
    let text := "A,(B<->C"
    let text' := " A , [ B<>C "
    Spells text.toList ts ∧ Spells text'.toList ts ∧
      parseFormula text = .error (.trailingInput ⟨2, 1, 2, [',']⟩) ∧
      parseHypotheses text = .error (.missingClose ⟨3, 2, 3, ['(']⟩ "end of input".toList) ∧
      Agree (SamePlace ts text.toList text'.toList) Eq (parseFormula text) (parseFormula text') ∧
      Agree (SamePlace ts text.toList text'.toList) Eq (parseHypotheses text)
        (parseHypotheses text') := by
  intro ts text text'
  have h : Spells text.toList ts := (spells_iff .origin).mpr ⟨by decide, by decide⟩
  have h' : Spells text'.toList ts := (spells_iff .origin).mpr ⟨by decide, by decide⟩
  exact ⟨h, h', by decide, by decide, parse_respelled h h'⟩

end Texts

end Turnstile
