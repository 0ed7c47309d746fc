import Turnstile.Proof
import Turnstile.Proofs.Legibility

/-!
Proofs can be told from what is written for them, in symbols and in words.

Every part of the text ends with a mark that it does not hold itself: the number of a line with a
point, a formula with a comma, a citation with the end of the line. What is written for an
assumption starts with a word, what is written for a line with a digit.

* `Citation.text_inj`: a citation can be told from its text, with however many numbers it has;
* `Assumption.write_append_inj` and `Line.write_append_inj`: with any text behind them, an
  assumption and a line can be told from theirs, and so can what follows;
* `Proof.SaysSame`: the same assumptions and the same lines, up to what is known of atoms;
* `Proof.write_eq_iff_saysSame`: two proofs read the same in one style just if they say the same,
  and so just if they read the same in the other.
-/

namespace Turnstile

/-! ## Marks -/

/-- Text up to a mark that it does not hold. -/
theorem append_cons_inj {α : Type} {mark : α} {xs xs' ys ys' : List α} (h : mark ∉ xs)
    (h' : mark ∉ xs') (heq : xs ++ mark :: ys = xs' ++ mark :: ys') : xs = xs' ∧ ys = ys' := by
  induction xs generalizing xs' with
  | nil =>
    cases xs' with
    | nil => exact ⟨rfl, (List.cons.inj heq).2⟩
    | cons x' xs' =>
      obtain ⟨rfl, _⟩ := List.cons.inj heq
      exact absurd List.mem_cons_self h'
  | cons x xs ih =>
    cases xs' with
    | nil =>
      obtain ⟨rfl, _⟩ := List.cons.inj heq
      exact absurd List.mem_cons_self h
    | cons x' xs' =>
      obtain ⟨rfl, hrest⟩ := List.cons.inj heq
      obtain ⟨rfl, rfl⟩ := ih (fun hmem => h (List.mem_cons_of_mem _ hmem))
        (fun hmem => h' (List.mem_cons_of_mem _ hmem)) hrest
      exact ⟨rfl, rfl⟩

/-! ## Numbers and citations -/

theorem isDigit_of_mem_toString {n : Nat} {c : Char} (h : c ∈ (toString n).toList) :
    c.isDigit = true := by
  rw [Nat.toString_eq_ofList_toDigits, String.toList_ofList] at h
  exact Nat.isDigit_of_mem_toDigits (by decide) (by decide) h

theorem toString_inj {n n' : Nat} (h : (toString n).toList = (toString n').toList) : n = n' := by
  rw [Nat.toString_eq_ofList_toDigits, Nat.toString_eq_ofList_toDigits, String.toList_ofList,
    String.toList_ofList] at h
  have hvalue := congrArg (fun digits => Nat.ofDigitChars 10 digits 0) h
  simpa only [Nat.ofDigitChars_ten_toDigits] using hvalue

/-- Numbers, each behind a comma. -/
def listNumbers (ns : List Nat) : List Char :=
  ns.flatMap fun n => ',' :: ' ' :: (toString n).toList

theorem append_listNumbers_inj {cs cs' : List Char} {ns ns' : List Nat} (h : ',' ∉ cs)
    (h' : ',' ∉ cs') (heq : cs ++ listNumbers ns = cs' ++ listNumbers ns') :
    cs = cs' ∧ ns = ns' := by
  have hdigits : ∀ n : Nat, ',' ∉ (toString n).toList := by
    intro n hmem
    cases isDigit_of_mem_toString hmem
  induction ns generalizing cs cs' ns' with
  | nil =>
    cases ns' with
    | nil => exact ⟨by simpa [listNumbers] using heq, rfl⟩
    | cons n' ns' =>
      rw [listNumbers, List.flatMap_nil, List.append_nil] at heq
      rw [heq] at h
      simp [listNumbers] at h
  | cons n ns ih =>
    cases ns' with
    | nil =>
      rw [listNumbers, listNumbers, List.flatMap_nil, List.append_nil] at heq
      rw [← heq] at h'
      simp at h'
    | cons n' ns' =>
      obtain ⟨rfl, hrest⟩ := append_cons_inj h h' heq
      obtain ⟨hn, rfl⟩ := ih (hdigits n) (hdigits n') (List.cons.inj hrest).2
      exact ⟨rfl, by rw [toString_inj hn]⟩

theorem Rule.title_inj {rule rule' : Rule} (h : rule.title = rule'.title) : rule = rule' := by
  have hfind : ∀ rule : Rule,
      catalog.find? (fun other => other.title == rule.title) = some rule := by
    intro rule
    cases rule <;> decide
  have hrule := hfind rule
  rw [h, hfind rule'] at hrule
  exact (Option.some.inj hrule).symm

theorem Rule.not_mem_title (rule : Rule) : ∀ mark ∈ [',', '\n'], mark ∉ rule.title.toList := by
  refine List.all_iff_forall_prop.mp ?_
  cases rule <;> decide

namespace Citation

/-- What is cited, without the lines. -/
def head : Citation → String
  | .hypothesis => "Hypothesis"
  | .assumption => "Hypothesis (by Deduction Method)"
  | .inference rule _ => rule.title

def numbers : Citation → List Nat
  | .hypothesis | .assumption => []
  | .inference _ lines => lines

theorem toList_text (c : Citation) : c.text.toList = c.head.toList ++ listNumbers c.numbers := by
  cases c with
  | hypothesis | assumption => simp [text, head, numbers, listNumbers]
  | inference rule lines =>
    simp [text, head, numbers, listNumbers, String.toList_join, List.flatMap_map]

theorem not_mem_head (c : Citation) : ∀ mark ∈ [',', '\n'], mark ∉ c.head.toList := by
  cases c with
  | hypothesis | assumption => exact List.all_iff_forall_prop.mp (by decide)
  | inference rule => exact rule.not_mem_title

theorem newline_not_mem_text (c : Citation) : '\n' ∉ c.text.toList := by
  rw [toList_text]
  intro h
  rcases List.mem_append.mp h with h | h
  · exact c.not_mem_head '\n' (by decide) h
  · obtain ⟨n, _, hn⟩ := List.mem_flatMap.mp h
    have hdigit : '\n' ∈ (toString n).toList := by simpa using hn
    cases isDigit_of_mem_toString hdigit

theorem eq_of_head_eq {c d : Citation} (hhead : c.head = d.head)
    (hnumbers : c.numbers = d.numbers) : c = d := by
  have htitle : ∀ rule : Rule, rule.title ≠ hypothesis.head ∧ rule.title ≠ assumption.head := by
    intro rule
    cases rule <;> decide
  cases c with
  | hypothesis =>
    cases d with
    | hypothesis => rfl
    | assumption => exact absurd hhead (by decide)
    | inference rule lines => exact absurd hhead.symm (htitle rule).1
  | assumption =>
    cases d with
    | hypothesis => exact absurd hhead (by decide)
    | assumption => rfl
    | inference rule lines => exact absurd hhead.symm (htitle rule).2
  | inference rule lines =>
    cases d with
    | hypothesis => exact absurd hhead (htitle rule).1
    | assumption => exact absurd hhead (htitle rule).2
    | inference rule' lines' =>
      obtain rfl := Rule.title_inj hhead
      obtain rfl : lines = lines' := hnumbers
      rfl

theorem text_inj {c d : Citation} (h : c.text.toList = d.text.toList) : c = d := by
  rw [toList_text, toList_text] at h
  obtain ⟨hhead, hnumbers⟩ :=
    append_listNumbers_inj (c.not_mem_head ',' (by decide)) (d.not_mem_head ',' (by decide)) h
  exact eq_of_head_eq (String.toList_injective hhead) hnumbers

end Citation

/-! ## Assumptions and lines -/

section Passages

variable {style : Style} {cs ds : List Char}

namespace Assumption

/-- What is assumed and what remains to prove, with nothing known of atoms. -/
def content (a : Assumption) : Formula × Formula := (a.assumed.forget, a.goal.forget)

def IsLettered (a : Assumption) : Prop := a.assumed.IsLettered ∧ a.goal.IsLettered

instance (a : Assumption) : Decidable a.IsLettered :=
  inferInstanceAs (Decidable (a.assumed.IsLettered ∧ a.goal.IsLettered))

theorem toList_narration {first second third x y : String} {before between : List Char}
    (hfirst : first.toList = 'B' :: before)
    (hsecond : second.toList = " is true".toList ++ ',' :: between) (cs : List Char) :
    (first ++ x ++ second ++ third ++ y ++ "\n").toList ++ cs =
      'B' :: (before ++ ((x.toList ++ " is true".toList) ++
        ',' :: (between ++ third.toList ++ (y.toList ++ '\n' :: cs)))) := by
  simp [hfirst, hsecond]

/-- What is assumed stands before the first comma, what remains at the end. -/
theorem exists_toList_write (style : Style) : ∃ before between : List Char,
    ∀ (a : Assumption) (cs : List Char), (a.write style).toList ++ cs =
      'B' :: (before ++ (((a.assumed.write style).toList ++ " is true".toList) ++
        ',' :: (between ++ ((a.goal.write style).toList ++ '\n' :: cs)))) := by
  have hfirst : "Because this conclusion only matters if ".toList =
      'B' :: "ecause this conclusion only matters if ".toList := by decide +kernel
  have hsecond :
      " is true, then we can assume that it is, and place it in our hypotheses. ".toList =
        " is true".toList ++
          ',' :: " then we can assume that it is, and place it in our hypotheses. ".toList := by
    decide +kernel
  exact ⟨_, _, fun _ cs => toList_narration hfirst hsecond cs⟩

theorem write_append_inj (hs : style.IsLegible) {a b : Assumption} (ha : a.IsLettered)
    (hb : b.IsLettered) (h : (a.write style).toList ++ cs = (b.write style).toList ++ ds) :
    a.content = b.content ∧ cs = ds := by
  obtain ⟨before, between, htext⟩ := exists_toList_write style
  rw [htext, htext] at h
  have hcomma := hs.avoids ',' (by decide)
  have hnewline := hs.avoids '\n' (by decide)
  have hassumed : ∀ f : Formula, f.IsLettered →
      ',' ∉ (f.write style).toList ++ " is true".toList := by
    intro f hf
    rw [List.mem_append, not_or]
    exact ⟨Formula.not_mem_write hcomma hf, by decide⟩
  obtain ⟨hleft, h⟩ := append_cons_inj (hassumed _ ha.1) (hassumed _ hb.1)
    (List.append_cancel_left (List.cons.inj h).2)
  obtain ⟨hright, h⟩ := append_cons_inj (Formula.not_mem_write hnewline ha.2)
    (Formula.not_mem_write hnewline hb.2) (List.append_cancel_left h)
  have hleft := String.toList_injective (List.append_cancel_right hleft)
  have hright := String.toList_injective hright
  refine ⟨?_, h⟩
  rw [content, content, (Formula.write_eq_iff hs ha.1 hb.1).mp hleft,
    (Formula.write_eq_iff hs ha.2 hb.2).mp hright]

theorem write_content (hs : style.IsLegible) (a : Assumption) :
    write style ⟨a.content.1, a.content.2, none⟩ = a.write style := by
  unfold write content
  rw [Formula.write_forget hs, Formula.write_forget hs]

end Assumption

namespace Line

/-- The number, the formula with nothing known of its atoms, and the citation. -/
def content (l : Line) : Nat × Formula × Citation := (l.number, l.formula.forget, l.citation)

theorem toList_write_append (style : Style) (l : Line) (cs : List Char) :
    (l.write style).toList ++ cs =
      (toString l.number).toList ++ '.' :: ' ' :: ((l.formula.write style).toList ++
        ',' :: ' ' :: (l.citation.text.toList ++ '\n' :: cs)) := by
  simp [write]

theorem exists_digit (style : Style) (l : Line) (cs : List Char) :
    ∃ digit rest, (l.write style).toList ++ cs = digit :: rest ∧ digit.isDigit = true := by
  rw [toList_write_append]
  cases hdigits : (toString l.number).toList with
  | nil =>
    rw [Nat.toString_eq_ofList_toDigits, String.toList_ofList] at hdigits
    exact absurd hdigits Nat.toDigits_ne_nil
  | cons digit digits =>
    have hmem : digit ∈ (toString l.number).toList := by
      rw [hdigits]
      exact List.mem_cons_self
    exact ⟨digit, _, rfl, isDigit_of_mem_toString hmem⟩

theorem write_append_inj (hs : style.IsLegible) {l k : Line} (hl : l.formula.IsLettered)
    (hk : k.formula.IsLettered) (h : (l.write style).toList ++ cs = (k.write style).toList ++ ds) :
    l.content = k.content ∧ cs = ds := by
  rw [toList_write_append, toList_write_append] at h
  have hdigits : ∀ n : Nat, '.' ∉ (toString n).toList := by
    intro n hmem
    cases isDigit_of_mem_toString hmem
  have hcomma := hs.avoids ',' (by decide)
  obtain ⟨hnumber, h⟩ := append_cons_inj (hdigits _) (hdigits _) h
  obtain ⟨hformula, h⟩ := append_cons_inj (Formula.not_mem_write hcomma hl)
    (Formula.not_mem_write hcomma hk) (List.cons.inj h).2
  obtain ⟨hcitation, h⟩ := append_cons_inj l.citation.newline_not_mem_text
    k.citation.newline_not_mem_text (List.cons.inj h).2
  have hforget := (Formula.write_eq_iff hs hl hk).mp (String.toList_injective hformula)
  refine ⟨?_, h⟩
  rw [content, content, toString_inj hnumber, hforget, Citation.text_inj hcitation]

theorem write_content (hs : style.IsLegible) (l : Line) :
    write style ⟨l.content.1, l.content.2.1, l.content.2.2⟩ = l.write style := by
  unfold write content
  rw [Formula.write_forget hs]

end Line

end Passages

/-! ## Proofs -/

/-- If every text ends where it says so, a list can be told from all of its texts in a row. -/
theorem map_eq_of_flatMap_eq {α β : Type} {text : α → List Char} {content : α → β}
    (hne : ∀ a, text a ≠ []) {as bs : List α}
    (hinj : ∀ a ∈ as, ∀ b ∈ bs, ∀ cs ds, text a ++ cs = text b ++ ds →
      content a = content b ∧ cs = ds)
    (h : as.flatMap text = bs.flatMap text) : as.map content = bs.map content := by
  induction as generalizing bs with
  | nil =>
    cases bs with
    | nil => rfl
    | cons b bs =>
      rw [List.flatMap_nil, List.flatMap_cons] at h
      exact absurd (List.append_eq_nil_iff.mp h.symm).1 (hne b)
  | cons a as ih =>
    cases bs with
    | nil =>
      rw [List.flatMap_nil, List.flatMap_cons] at h
      exact absurd (List.append_eq_nil_iff.mp h).1 (hne a)
    | cons b bs =>
      rw [List.flatMap_cons, List.flatMap_cons] at h
      obtain ⟨hfirst, hrest⟩ := hinj a List.mem_cons_self b List.mem_cons_self _ _ h
      have hothers := ih (fun a ha b hb =>
        hinj a (List.mem_cons_of_mem _ ha) b (List.mem_cons_of_mem _ hb)) hrest
      rw [List.map_cons, List.map_cons, hfirst, hothers]

namespace Proof

/-- Every atom of the proof is a letter that can be read. -/
def IsLettered (p : Proof) : Prop :=
  (∀ a ∈ p.assumptions, a.IsLettered) ∧ ∀ l ∈ p.lines, l.formula.IsLettered

instance (p : Proof) : Decidable p.IsLettered :=
  inferInstanceAs (Decidable ((∀ a ∈ p.assumptions, a.IsLettered) ∧
    ∀ l ∈ p.lines, l.formula.IsLettered))

/-- The same assumptions with the same goals, and the same lines with the same numbers and
citations, but for what is known of atoms. -/
structure SaysSame (p q : Proof) : Prop where
  assumptions : p.assumptions.map Assumption.content = q.assumptions.map Assumption.content
  lines : p.lines.map Line.content = q.lines.map Line.content

/-- The parts that a proof is written in. -/
def passages (p : Proof) : List (Assumption ⊕ Line) :=
  p.assumptions.map Sum.inl ++ p.lines.map Sum.inr

def passageText (style : Style) : Assumption ⊕ Line → List Char
  | .inl a => (a.write style).toList
  | .inr l => (l.write style).toList

theorem toList_write (style : Style) (p : Proof) :
    (p.write style).toList = p.passages.flatMap (passageText style) := by
  simp [write, passages, passageText, String.toList_join, List.flatMap_map]

theorem passageText_ne_nil (style : Style) (x : Assumption ⊕ Line) : passageText style x ≠ [] := by
  intro h
  cases x with
  | inl a =>
    obtain ⟨before, between, htext⟩ := Assumption.exists_toList_write style
    have hfirst := htext a []
    rw [show (a.write style).toList = [] from h] at hfirst
    cases hfirst
  | inr l =>
    obtain ⟨digit, rest, htext, _⟩ := l.exists_digit style []
    rw [show (l.write style).toList = [] from h] at htext
    cases htext

/-- The word that an assumption starts with is no number. -/
theorem write_append_ne (style : Style) (a : Assumption) (l : Line) (cs ds : List Char) :
    (a.write style).toList ++ cs ≠ (l.write style).toList ++ ds := by
  intro h
  obtain ⟨before, between, htext⟩ := Assumption.exists_toList_write style
  obtain ⟨digit, rest, hdigit, hisDigit⟩ := l.exists_digit style ds
  rw [htext, hdigit] at h
  obtain ⟨rfl, _⟩ := List.cons.inj h
  cases hisDigit

section Reading

variable {style : Style} {p q : Proof}

theorem passageText_append_inj (hs : style.IsLegible) (hp : p.IsLettered) (hq : q.IsLettered) :
    ∀ x ∈ p.passages, ∀ y ∈ q.passages, ∀ cs ds,
      passageText style x ++ cs = passageText style y ++ ds →
      Sum.map Assumption.content Line.content x = Sum.map Assumption.content Line.content y ∧
        cs = ds := by
  intro x hx y hy cs ds h
  simp only [passages, List.mem_append, List.mem_map] at hx hy
  rcases hx with ⟨a, ha, rfl⟩ | ⟨l, hl, rfl⟩ <;> rcases hy with ⟨b, hb, rfl⟩ | ⟨k, hk, rfl⟩
  · obtain ⟨hcontent, hrest⟩ := Assumption.write_append_inj hs (hp.1 a ha) (hq.1 b hb) h
    exact ⟨congrArg Sum.inl hcontent, hrest⟩
  · exact absurd h (write_append_ne style a k cs ds)
  · exact absurd h.symm (write_append_ne style b l ds cs)
  · obtain ⟨hcontent, hrest⟩ := Line.write_append_inj hs (hp.2 l hl) (hq.2 k hk) h
    exact ⟨congrArg Sum.inr hcontent, hrest⟩

theorem saysSame_of_write_eq (hs : style.IsLegible) (hp : p.IsLettered) (hq : q.IsLettered)
    (h : p.write style = q.write style) : p.SaysSame q := by
  have htext := congrArg String.toList h
  rw [toList_write, toList_write] at htext
  have hcontents := map_eq_of_flatMap_eq (passageText_ne_nil style)
    (passageText_append_inj hs hp hq) htext
  have hnone : ∀ (α β : Type) (xs : List α), xs.filterMap (fun _ => (none : Option β)) = [] :=
    fun _ _ _ => List.filterMap_eq_nil_iff.mpr fun _ _ => rfl
  have hleft := congrArg (List.filterMap Sum.getLeft?) hcontents
  have hright := congrArg (List.filterMap Sum.getRight?) hcontents
  constructor
  · simpa [passages, List.filterMap_map, Function.comp_def, hnone] using hleft
  · simpa [passages, List.filterMap_map, Function.comp_def, hnone] using hright

theorem SaysSame.write_eq (hs : style.IsLegible) (h : p.SaysSame q) :
    p.write style = q.write style := by
  have hassumptions : p.assumptions.map (·.write style) = q.assumptions.map (·.write style) := by
    have hwritten := congrArg (List.map fun c => Assumption.write style ⟨c.1, c.2, none⟩)
      h.assumptions
    simpa only [List.map_map, Function.comp_def, Assumption.write_content hs] using hwritten
  have hlines : p.lines.map (·.write style) = q.lines.map (·.write style) := by
    have hwritten := congrArg (List.map fun c => Line.write style ⟨c.1, c.2.1, c.2.2⟩) h.lines
    simpa only [List.map_map, Function.comp_def, Line.write_content hs] using hwritten
  rw [write, write, hassumptions, hlines]

/-- Two proofs whose atoms are letters read the same in words if and only if they say the same, and
just so in symbols. -/
theorem write_eq_iff_saysSame (hp : p.IsLettered) (hq : q.IsLettered) :
    (p.write .english = q.write .english ↔ p.SaysSame q) ∧
      (p.write .symbolic = q.write .symbolic ↔ p.SaysSame q) ∧
      (p.write .english = q.write .english ↔ p.write .symbolic = q.write .symbolic) := by
  have hwrite : ∀ {style : Style}, style.IsLegible →
      (p.write style = q.write style ↔ p.SaysSame q) :=
    fun hs => ⟨saysSame_of_write_eq hs hp hq, SaysSame.write_eq hs⟩
  have henglish := hwrite Style.isLegible_english
  have hsymbolic := hwrite Style.isLegible_symbolic
  exact ⟨henglish, hsymbolic, henglish.trans hsymbolic.symm⟩

/-- Of three proofs the second differs from the first only in what is not written, the third in the
order of two cited lines. -/
theorem write_eq_iff_saysSame_cited :
    let a : Formula := .var "n"
    let goal : Formula := .imp a (.compound .or true a (.imp a a))
    let line (cited : List Nat) : Line := ⟨12, goal, .inference .modusPonens cited⟩
    let p : Proof := ⟨[⟨a, goal, some 0⟩], [⟨1, a.holding, .assumption⟩, line [1, 11]], 2⟩
    let q : Proof := ⟨[⟨a, goal, none⟩], [⟨1, a, .assumption⟩, line [1, 11]], 1⟩
    let r : Proof := ⟨[⟨a, goal, none⟩], [⟨1, a, .assumption⟩, line [11, 1]], 1⟩
    p.IsLettered ∧ q.IsLettered ∧ r.IsLettered ∧
      (line [1, 11]).write .english =
        "12. n implies not (n or (n implies n)), Modus Ponens, 1, 11\n" ∧
      p.write .english = q.write .english ∧ p.write .symbolic = q.write .symbolic ∧
      p.write .english ≠ r.write .english ∧ p.write .symbolic ≠ r.write .symbolic := by
  intro a goal line p q r
  have hp : p.IsLettered := by decide
  have hq : q.IsLettered := by decide
  have hr : r.IsLettered := by decide
  have hsame : p.SaysSame q := ⟨by decide, by decide⟩
  have hother : ¬ p.SaysSame r := fun h => absurd h.lines (by decide)
  obtain ⟨henglish, hsymbolic, _⟩ := write_eq_iff_saysSame hp hq
  obtain ⟨henglish', hsymbolic', _⟩ := write_eq_iff_saysSame hp hr
  exact ⟨hp, hq, hr, by decide +kernel, henglish.mpr hsame, hsymbolic.mpr hsame,
    mt henglish'.mp hother, mt hsymbolic'.mp hother⟩

end Reading

end Proof

end Turnstile
