import Mathlib.Tactic.FinCases
import Turnstile.Json

/-!
Texts of JSON values. Their tokens may have any space around them, numbers and strings any of their
spellings, and strings need not be of characters.

* `Json.Spells`: the texts of a list of tokens. `Json.Spells.tokens?_eq`: scanning finds the tokens;
* `Json.toTokens`: the tokens of a value. `Json.isDelivered`: reading them delivers the value into
  the frames around it, by induction on the value;
* `Json.Spells.parse?_eq`: so a text of the tokens of a value is read as the value.
-/

namespace Turnstile.Json

/-! ## Numbers -/

/-- One decimal digit or more. -/
def IsDigits (cs : List Char) : Prop := cs ≠ [] ∧ cs.all Char.isDigit = true

/-- Digits that do not start with zero, or zero alone. -/
def IsWhole (cs : List Char) : Prop := cs = ['0'] ∨ IsDigits cs ∧ cs.head? ≠ some '0'

/-- Nothing, or a point and digits. -/
def IsFraction (cs : List Char) : Prop := cs = [] ∨ ∃ digits, IsDigits digits ∧ cs = '.' :: digits

/-- Nothing, or a mark, perhaps a sign, and digits. -/
def IsExponent (cs : List Char) : Prop :=
  cs = [] ∨ ∃ mark sign digits, mark ∈ ['e', 'E'] ∧ sign ∈ [[], ['+'], ['-']] ∧ IsDigits digits ∧
    cs = mark :: (sign ++ digits)

/-- A number: perhaps a minus sign, then a whole part, a fraction and an exponent. -/
def IsNumber (cs : List Char) : Prop :=
  ∃ sign whole fraction exponent, sign ∈ [[], ['-']] ∧ IsWhole whole ∧ IsFraction fraction ∧
    IsExponent exponent ∧ cs = sign ++ (whole ++ (fraction ++ exponent))

/-- No number goes on with the text. -/
def EndsNumber (cs : List Char) : Prop :=
  ∀ c ∈ cs.head?, c.isDigit = false ∧ c ∉ ['.', 'e', 'E']

/-- From the first part, the characters lead to the second. -/
def NumberPart.Reads (part : NumberPart) (cs : List Char) (part' : NumberPart) : Prop :=
  cs.foldlM NumberPart.next? part = some part'

namespace NumberPart

variable {part part' : NumberPart} {c : Char} {cs : List Char}

theorem reads_nil (part : NumberPart) : part.Reads [] part := rfl

theorem Reads.cons (hc : part.next? c = some part') {part'' : NumberPart}
    (h : part'.Reads cs part'') : part.Reads (c :: cs) part'' := by
  rw [Reads, List.foldlM_cons, hc]
  exact h

theorem Reads.append {part'' : NumberPart} {ds : List Char} (h : part.Reads cs part')
    (h' : part'.Reads ds part'') : part.Reads (cs ++ ds) part'' := by
  rw [Reads, List.foldlM_append, h]
  exact h'

theorem Reads.scan (h : part.Reads cs part') (ds : List Char) :
    (Mode.number part).scan (cs ++ ds) = (Mode.number part').scan ds := by
  induction cs generalizing part with
  | nil =>
    cases h
    rfl
  | cons c cs ih =>
    rw [Reads, List.foldlM_cons] at h
    cases hc : part.next? c with
    | none =>
      rw [hc] at h
      cases h
    | some next =>
      rw [hc] at h
      simp only [List.cons_append, Mode.scan, Mode.step, hc, ih h, List.nil_append, Option.map_id']

/-- Where digits may go on, they do. -/
theorem reads_digits (hpart : ∀ d : Char, d.isDigit = true → part.next? d = some part)
    (h : cs.all Char.isDigit = true) : part.Reads cs part := by
  induction cs with
  | nil => exact reads_nil part
  | cons c cs ih =>
    rw [List.all_cons, Bool.and_eq_true] at h
    exact .cons (hpart c h.1) (ih h.2)

theorem reads_isDigits (hpart : ∀ d : Char, d.isDigit = true → part.next? d = some part')
    (hpart' : ∀ d : Char, d.isDigit = true → part'.next? d = some part') (h : IsDigits cs) :
    part.Reads cs part' := by
  obtain ⟨hne, hall⟩ := h
  cases cs with
  | nil => exact absurd rfl hne
  | cons c cs =>
    rw [List.all_cons, Bool.and_eq_true] at hall
    exact .cons (hpart c hall.1) (reads_digits hpart' hall.2)

theorem ne_of_isDigit {d : Char} (h : d.isDigit = true) (hc : c.isDigit = false) : d ≠ c := by
  rintro rfl
  exact Bool.noConfusion (h.symm.trans hc)

/-- The whole part has been read, or the fraction. -/
def TakesExponent (part : NumberPart) : Prop := part = .zero ∨ part = .whole ∨ part = .fraction

theorem reads_exponent (hpart : part.TakesExponent) (h : IsExponent cs) :
    ∃ part', part'.isComplete = true ∧ part.Reads cs part' := by
  obtain rfl | ⟨mark, sign, digits, hmark, hsign, hdigits, rfl⟩ := h
  · refine ⟨part, ?_, reads_nil part⟩
    rcases hpart with rfl | rfl | rfl <;> rfl
  · refine ⟨.exponent, rfl, ?_⟩
    have hnext : part.next? mark = some .exponentMark := by
      rcases hpart with rfl | rfl | rfl <;> fin_cases hmark <;> rfl
    have hafter : exponentSign.Reads digits .exponent :=
      reads_isDigits (fun _ hd => if_pos hd) (fun _ hd => if_pos hd) hdigits
    refine .cons hnext ?_
    fin_cases hsign
    · refine reads_isDigits (fun d hd => ?_) (fun _ hd => if_pos hd) hdigits
      simp [next?, isSign, ne_of_isDigit hd, hd]
    · exact hafter.cons rfl
    · exact hafter.cons rfl

theorem reads_fraction (hpart : part = .zero ∨ part = .whole) (h : IsFraction cs) :
    ∃ part', part'.TakesExponent ∧ part.Reads cs part' := by
  obtain rfl | ⟨digits, hdigits, rfl⟩ := h
  · exact ⟨part, hpart.imp_right Or.inl, reads_nil part⟩
  · refine ⟨.fraction, Or.inr (Or.inr rfl), ?_⟩
    have hnext : part.next? '.' = some .point := by
      rcases hpart with rfl | rfl <;> rfl
    exact .cons hnext (reads_isDigits (fun _ hd => if_pos hd) (fun _ hd => if_pos hd) hdigits)

/-- A whole part starts a number, with or without a sign before it. -/
theorem exists_reads_whole (h : IsWhole cs) : ∃ c rest part, cs = c :: rest ∧
    (part = .zero ∨ part = .whole) ∧ next? .minus c = some part ∧
      Mode.start c = some (.number part, []) ∧ part.Reads rest part := by
  obtain rfl | ⟨⟨hne, hall⟩, hzero⟩ := h
  · exact ⟨'0', [], .zero, rfl, Or.inl rfl, rfl, rfl, reads_nil .zero⟩
  · cases cs with
    | nil => exact absurd rfl hne
    | cons c rest =>
      rw [List.all_cons, Bool.and_eq_true] at hall
      have hzero : c ≠ '0' := fun heq => hzero (congrArg some heq)
      refine ⟨c, rest, .whole, rfl, Or.inr rfl, ?_, ?_, reads_digits (fun _ hd => if_pos hd) hall.2⟩
      · simp [next?, hzero, hall.1]
      · simp [Mode.start, isSpace, hzero, ne_of_isDigit hall.1, hall.1]

end NumberPart

theorem IsNumber.exists_reads {cs : List Char} (h : IsNumber cs) : ∃ c rest part part',
    cs = c :: rest ∧ Mode.start c = some (.number part, []) ∧ part.Reads rest part' ∧
      part'.isComplete = true := by
  obtain ⟨sign, whole, fraction, exponent, hsign, hwhole, hfraction, hexponent, rfl⟩ := h
  obtain ⟨c, rest, part, rfl, hpart, hminus, hstart, hrest⟩ := NumberPart.exists_reads_whole hwhole
  obtain ⟨part', hpart', hreads'⟩ := NumberPart.reads_fraction hpart hfraction
  obtain ⟨part'', hcomplete, hreads''⟩ := NumberPart.reads_exponent hpart' hexponent
  have hreads := hrest.append (hreads'.append hreads'')
  fin_cases hsign
  · exact ⟨c, _, part, part'', rfl, hstart, hreads, hcomplete⟩
  · exact ⟨'-', _, .minus, part'', rfl, rfl, hreads.cons hminus, hcomplete⟩

theorem IsNumber.scan_eq {cs ds : List Char} (h : IsNumber cs) (hds : EndsNumber ds) :
    Mode.gap.scan (cs ++ ds) = (Mode.gap.scan ds).map (.number :: ·) := by
  obtain ⟨c, rest, part, part', rfl, hstart, hreads, hcomplete⟩ := h.exists_reads
  have hnumber : (Mode.number part').scan ds = (Mode.gap.scan ds).map (.number :: ·) := by
    cases ds with
    | nil => simp [Mode.scan, Mode.finish, hcomplete]
    | cons d ds =>
      obtain ⟨hdigit, hmark⟩ := hds d rfl
      have hnext : part'.next? d = none := by
        cases part' <;> simp_all [NumberPart.next?, NumberPart.isMark, NumberPart.isComplete]
      simp only [Mode.scan, Mode.step, hnext, hcomplete, if_true]
      cases Mode.start d with
      | none => rfl
      | some next => simp [Function.comp_def]
  rw [List.cons_append, Mode.scan, Mode.step, hstart]
  simp only [hreads.scan, hnumber, List.nil_append, Option.map_id']

/-! ## Strings -/

/-- The code points that have a spelling of a backslash and one more character. -/
def escapes : List (Char × Nat) :=
  [('"', 0x22), ('\\', 0x5C), ('/', 0x2F), ('b', 0x08), ('f', 0x0C), ('n', 0x0A), ('r', 0x0D),
    ('t', 0x09)]

def hexDigits : List (Char × Nat) :=
  [('0', 0), ('1', 1), ('2', 2), ('3', 3), ('4', 4), ('5', 5), ('6', 6), ('7', 7), ('8', 8),
    ('9', 9), ('a', 10), ('b', 11), ('c', 12), ('d', 13), ('e', 14), ('f', 15), ('A', 10),
    ('B', 11), ('C', 12), ('D', 13), ('E', 14), ('F', 15)]

/-- The spellings of a code point in a string. -/
inductive SpellsCode : Nat → List Char → Prop
  | plain {c : Char} (hquote : c ≠ '"') (hbackslash : c ≠ '\\') (hcontrol : 0x20 ≤ c.toNat) :
      SpellsCode c.toNat [c]
  | escape {c : Char} {code : Nat} (h : (c, code) ∈ escapes) : SpellsCode code ['\\', c]
  | hex {a b c d : Char} {i j k l : Nat} (ha : (a, i) ∈ hexDigits) (hb : (b, j) ∈ hexDigits)
      (hc : (c, k) ∈ hexDigits) (hd : (d, l) ∈ hexDigits) :
      SpellsCode (16 * (16 * (16 * i + j) + k) + l) ['\\', 'u', a, b, c, d]

/-- The spellings of a string, without the quotes around it. -/
inductive SpellsCodes : List Nat → List Char → Prop
  | nil : SpellsCodes [] []
  | cons {code : Nat} {codes : List Nat} {cs ds : List Char} (hcode : SpellsCode code cs)
      (h : SpellsCodes codes ds) : SpellsCodes (code :: codes) (cs ++ ds)

theorem escaped?_of_mem :
    ∀ entry ∈ escapes, entry.1 ≠ 'u' ∧ escaped? entry.1 = some entry.2 := by decide

theorem hexDigit?_of_mem : ∀ entry ∈ hexDigits, hexDigit? entry.1 = some entry.2 := by decide

theorem SpellsCode.scan_eq {code : Nat} {cs : List Char} (h : SpellsCode code cs) (read : List Nat)
    (ds : List Char) : (Mode.text read).scan (cs ++ ds) = (Mode.text (code :: read)).scan ds := by
  cases h with
  | plain hquote hbackslash hcontrol =>
    simp [Mode.scan, Mode.step, hquote, hbackslash, Nat.not_lt.mpr hcontrol]
  | escape h =>
    obtain ⟨hu, hcode⟩ := escaped?_of_mem _ h
    simp [Mode.scan, Mode.step, hcode, hu]
  | hex ha hb hc hd =>
    simp [Mode.scan, Mode.step, hexDigit?_of_mem _ ha, hexDigit?_of_mem _ hb,
      hexDigit?_of_mem _ hc, hexDigit?_of_mem _ hd]

theorem SpellsCodes.scan_eq {codes : List Nat} {cs : List Char} (h : SpellsCodes codes cs)
    (read : List Nat) (ds : List Char) :
    (Mode.text read).scan (cs ++ '"' :: ds) =
      (Mode.gap.scan ds).map (.string (read.reverse ++ codes) :: ·) := by
  induction h generalizing read with
  | nil =>
    rw [List.nil_append, Mode.scan, List.append_nil]
    rfl
  | cons hcode _ ih =>
    rw [List.append_assoc, hcode.scan_eq, ih, List.reverse_cons, List.append_assoc]
    rfl

/-! ## Tokens -/

/-- The tokens that are one character. -/
def marks : List (Char × Token) :=
  [('[', .openArray), (']', .closeArray), ('\x7b', .openObject), ('\x7d', .closeObject),
    (',', .comma), (':', .colon)]

/-- The texts of a list of tokens. There may be space before and after each. -/
inductive Spells : List Token → List Char → Prop
  | nil : Spells [] []
  | space {c : Char} {ts : List Token} {cs : List Char} (hc : c ∈ [' ', '\t', '\n', '\r'])
      (h : Spells ts cs) : Spells ts (c :: cs)
  | mark {c : Char} {t : Token} {ts : List Token} {cs : List Char} (hc : (c, t) ∈ marks)
      (h : Spells ts cs) : Spells (t :: ts) (c :: cs)
  | literal {word : String} {ts : List Token} {cs : List Char}
      (hword : word ∈ ["true", "false", "null"]) (h : Spells ts cs) :
      Spells (.literal :: ts) (word.toList ++ cs)
  | number {digits : List Char} {ts : List Token} {cs : List Char} (hdigits : IsNumber digits)
      (hcs : EndsNumber cs) (h : Spells ts cs) : Spells (.number :: ts) (digits ++ cs)
  | string {codes : List Nat} {body : List Char} {ts : List Token} {cs : List Char}
      (hbody : SpellsCodes codes body) (h : Spells ts cs) :
      Spells (.string codes :: ts) ('"' :: (body ++ '"' :: cs))

theorem scan_space {c : Char} (hc : c ∈ [' ', '\t', '\n', '\r']) (cs : List Char) :
    Mode.gap.scan (c :: cs) = Mode.gap.scan cs := by
  have hspace : ∀ c ∈ [' ', '\t', '\n', '\r'], isSpace c = true := List.all_eq_true.mp rfl
  simp [Mode.scan, Mode.step, Mode.start, hspace c hc]

theorem scan_mark : ∀ entry ∈ marks, ∀ cs,
    Mode.gap.scan (entry.1 :: cs) = (Mode.gap.scan cs).map (entry.2 :: ·) := by
  simp only [marks, List.forall_mem_cons]
  and_intros
  all_goals first | exact fun _ => rfl | exact List.forall_mem_nil _

theorem scan_literal {word : String} (hword : word ∈ ["true", "false", "null"]) (cs : List Char) :
    Mode.gap.scan (word.toList ++ cs) = (Mode.gap.scan cs).map (.literal :: ·) := by
  fin_cases hword <;> simp [Mode.scan, Mode.step, Mode.start, isSpace, Function.comp_def]

theorem Spells.tokens?_eq {ts : List Token} {cs : List Char} (h : Spells ts cs) :
    tokens? cs = some ts := by
  unfold tokens?
  induction h with
  | nil => rfl
  | space hc _ ih => rw [scan_space hc, ih]
  | mark hc _ ih =>
    rw [scan_mark _ hc, ih]
    rfl
  | literal hword _ ih =>
    rw [scan_literal hword, ih]
    rfl
  | number hdigits hcs _ ih =>
    rw [hdigits.scan_eq hcs, ih]
    rfl
  | string hbody _ ih =>
    have htext : ∀ cs, Mode.gap.scan ('"' :: cs) = (Mode.text []).scan cs := fun _ =>
      Option.map_id'
    rw [htext, hbody.scan_eq, ih]
    rfl

/-! ## Values -/

/-- Parts with commas between them. -/
def separate : List (List Token) → List Token
  | [] => []
  | first :: rest => first ++ rest.flatMap (Token.comma :: ·)

/-- The tokens of a value. -/
def toTokens : Json → List Token
  | .literal => [.literal]
  | .number => [.number]
  | .string codes => [.string codes]
  | .array items => .openArray :: (separate (items.map toTokens) ++ [.closeArray])
  | .object members =>
    .openObject :: (separate (members.map fun m => .string m.1 :: .colon :: m.2.toTokens) ++
      [.closeObject])
decreasing_by
  · have hmem := List.sizeOf_lt_of_mem ‹_ ∈ items›
    simp only [array.sizeOf_spec]
    omega
  · obtain ⟨name, value⟩ := m
    have hmem := List.sizeOf_lt_of_mem ‹_ ∈ members›
    simp only [object.sizeOf_spec, Prod.mk.sizeOf_spec] at hmem ⊢
    omega

/-- From here on the tokens are read. -/
def State.run (state : State) (ts : List Token) : Option State := ts.foldlM State.step state

theorem State.run_cons (state : State) (t : Token) (ts : List Token) :
    state.run (t :: ts) = (state.step t).bind (·.run ts) :=
  List.foldlM_cons

/-- A value may come next. -/
def Need.TakesValue (need : Need) : Prop := need = .value ∨ need = .itemOrEnd

/-- Where a value may come next, its tokens deliver it into the frames around. -/
def IsDelivered (v : Json) : Prop := ∀ (need : Need) (frames : List Frame) (ts : List Token),
  need.TakesValue →
    (State.reading need frames).run (v.toTokens ++ ts) = (deliver v frames).bind (·.run ts)

theorem run_of_takesValue {need : Need} (hneed : need.TakesValue) (frames : List Frame) {t : Token}
    (ht : t ∉ [.closeArray, .closeObject]) (ts : List Token) :
    (State.reading need frames).run (t :: ts) = (beginValue frames t).bind (·.run ts) := by
  have hend : endFrame frames t = none := by
    unfold endFrame
    split
    · exact absurd (by decide) ht
    · exact absurd (by decide) ht
    · rfl
  rw [State.run_cons]
  obtain rfl | rfl := hneed
  · rfl
  · rw [State.step, hend]
    rfl

/-- What comes behind the first part of an array or object: more parts, each after a comma, and the
end. -/
theorem run_rest {α : Type} (frame : List α → Frame) (whole : List α → Json)
    (tokens : α → List Token) (close : Token) (outer : List Frame)
    (hclose : ∀ before, (State.reading .commaOrEnd (frame before :: outer)).step close =
      deliver (whole before.reverse) outer)
    {parts : List α} (hparts : ∀ part ∈ parts, ∀ before ts,
      (State.reading .commaOrEnd (frame before :: outer)).run (.comma :: (tokens part ++ ts)) =
        (State.reading .commaOrEnd (frame (part :: before) :: outer)).run ts)
    (before : List α) (ts : List Token) :
    (State.reading .commaOrEnd (frame before :: outer)).run
        ((parts.map tokens).flatMap (Token.comma :: ·) ++ close :: ts) =
      (deliver (whole (before.reverse ++ parts)) outer).bind (·.run ts) := by
  induction parts generalizing before with
  | nil =>
    rw [List.append_nil, ← hclose]
    exact State.run_cons _ _ _
  | cons part parts ih =>
    obtain ⟨hpart, hparts⟩ := List.forall_mem_cons.mp hparts
    have hrest := ih hparts (part :: before)
    rw [List.reverse_cons, List.append_assoc] at hrest
    rw [List.map_cons, List.flatMap_cons, List.append_assoc, List.cons_append, hpart]
    exact hrest

theorem isDelivered (v : Json) : v.IsDelivered := by
  intro need frames ts hneed
  induction v using toTokens.induct generalizing need frames ts with
  | case1 =>
    rw [toTokens]
    exact run_of_takesValue hneed frames (by decide) ts
  | case2 =>
    rw [toTokens]
    exact run_of_takesValue hneed frames (by decide) ts
  | case3 codes =>
    rw [toTokens]
    exact run_of_takesValue hneed frames (by simp) ts
  | case4 items ih =>
    rw [toTokens, List.cons_append, run_of_takesValue hneed frames (by decide), List.append_assoc]
    cases items with
    | nil => simp [separate, beginValue, State.run_cons, State.step, endFrame]
    | cons v items =>
      obtain ⟨hv, hitems⟩ := List.forall_mem_cons.mp ih
      have hrest := run_rest .array .array toTokens .closeArray frames (fun _ => rfl)
        (fun w hw before ts => hitems w hw .value (.array before :: frames) ts (Or.inl rfl)) [v] ts
      rw [List.map_cons, separate, List.append_assoc]
      exact (hv .itemOrEnd (.array [] :: frames) _ (Or.inr rfl)).trans hrest
  | case5 members ih =>
    rw [toTokens, List.cons_append, run_of_takesValue hneed frames (by decide), List.append_assoc]
    cases members with
    | nil => simp [separate, beginValue, State.run_cons, State.step, endFrame, beginMember]
    | cons m members =>
      obtain ⟨hm, hmembers⟩ := List.forall_mem_cons.mp ih
      have hrest := run_rest .object .object
        (fun m => Token.string m.1 :: .colon :: m.2.toTokens) .closeObject frames (fun _ => rfl)
        (fun m hm before ts =>
          hmembers m hm .value (.member before m.1 :: frames) ts (Or.inl rfl)) [m] ts
      rw [List.map_cons, separate, List.append_assoc]
      exact (hm .value (.member [] m.1 :: frames) _ (Or.inl rfl)).trans hrest

/-- A text of the tokens of a value is read as the value. -/
theorem Spells.parse?_eq {v : Json} {text : String} (h : Spells v.toTokens text.toList) :
    parse? text = some v := by
  have hrun := isDelivered v .value [] [] (Or.inl rfl)
  rw [List.append_nil] at hrun
  have hdone : v.toTokens.foldlM State.step (.reading .value []) = some (.done v) := hrun
  rw [parse?, h.tokens?_eq, Option.bind_some, ofTokens?, hdone]

end Turnstile.Json
