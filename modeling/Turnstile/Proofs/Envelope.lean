import Turnstile.Proofs.JsonText
import Turnstile.Report

/-!
Reports as JSON. A report is read back from what is written for it, and from any other JSON text of
an object that has its two texts as fields.

* `Json.Denotes`: the code points of a string, each a character or one half of a pair that stands
  for a character. `Json.Denotes.text?_eq`: strings are decoded accordingly;
* `Report.IsCarriedBy`: an object with both fields, among other members and in any order.
  `Report.IsCarriedBy.ofJson?_eq`: the report is taken from it;
* `Report.spells_toJson`: what is written for a report is a text of such an object;
* `Report.parse?_of_carried`: hence the statement on texts.
-/

namespace Turnstile

namespace Json

/-! ## Strings -/

/-- The code points of a text. A character beyond the first plane may be a pair of surrogates. -/
inductive Denotes : List Nat → List Char → Prop
  | nil : Denotes [] []
  | char {codes : List Nat} {cs : List Char} (c : Char) (h : Denotes codes cs) :
      Denotes (c.toNat :: codes) (c :: cs)
  | pair {c : Char} {codes : List Nat} {cs : List Char} (hc : 0x10000 ≤ c.toNat)
      (h : Denotes codes cs) :
      Denotes ((0xD800 + (c.toNat - 0x10000) / 0x400) :: (0xDC00 + (c.toNat - 0x10000) % 0x400) ::
        codes) (c :: cs)

/-- A character is no surrogate. -/
theorem toNat_surrogate (c : Char) :
    isHighSurrogate c.toNat = false ∧ isLowSurrogate c.toNat = false := by
  have hvalid : c.toNat < 0xD800 ∨ 0xDFFF < c.toNat ∧ c.toNat < 0x110000 := c.valid
  simp only [isHighSurrogate, isLowSurrogate, Bool.and_eq_false_iff, decide_eq_false_iff_not]
  omega

theorem decode?_char (c : Char) (codes : List Nat) :
    decode? (c.toNat :: codes) = (decode? codes).map (c :: ·) := by
  obtain ⟨hhigh, hlow⟩ := toNat_surrogate c
  cases codes with
  | nil => simp [decode?, hhigh, hlow]
  | cons => simp [decode?, hhigh, hlow]

theorem decode?_pair {c : Char} (hc : 0x10000 ≤ c.toNat) (codes : List Nat) :
    decode? ((0xD800 + (c.toNat - 0x10000) / 0x400) :: (0xDC00 + (c.toNat - 0x10000) % 0x400) ::
      codes) = (decode? codes).map (c :: ·) := by
  have hvalid : c.toNat < 0xD800 ∨ 0xDFFF < c.toNat ∧ c.toNat < 0x110000 := c.valid
  have hhigh : isHighSurrogate (0xD800 + (c.toNat - 0x10000) / 0x400) = true := by
    simp only [isHighSurrogate, Bool.and_eq_true, decide_eq_true_eq]
    omega
  have hlow : isLowSurrogate (0xDC00 + (c.toNat - 0x10000) % 0x400) = true := by
    simp only [isLowSurrogate, Bool.and_eq_true, decide_eq_true_eq]
    omega
  have hjoined : 0x10000 + (0xD800 + (c.toNat - 0x10000) / 0x400 - 0xD800) * 0x400 +
      (0xDC00 + (c.toNat - 0x10000) % 0x400 - 0xDC00) = c.toNat := by
    omega
  rw [decode?, if_pos hhigh, if_pos hlow, hjoined, Char.ofNat_toNat]

namespace Denotes

variable {codes : List Nat} {cs : List Char}

theorem decode?_eq (h : Denotes codes cs) : decode? codes = some cs := by
  induction h with
  | nil => rfl
  | char c _ ih =>
    rw [decode?_char, ih]
    rfl
  | pair hc _ ih =>
    rw [decode?_pair hc, ih]
    rfl

theorem text?_eq {text : String} (h : Denotes codes text.toList) : text? codes = some text := by
  rw [text?, h.decode?_eq, Option.map_some, String.ofList_toList]

theorem map_toNat (cs : List Char) : Denotes (cs.map Char.toNat) cs := by
  induction cs with
  | nil => exact .nil
  | cons c cs ih => exact .char c ih

end Denotes

theorem digitChar_mem_hexDigits : ∀ n < 16, (Nat.digitChar n, n) ∈ hexDigits := by decide

theorem spellsCode_escape (c : Char) : SpellsCode c.toNat (escape c) := by
  unfold escape
  split_ifs with hquote hbackslash hbackspace hpage hfeed hreturn htab hcontrol
  iterate 7
    next =>
      obtain rfl := beq_iff_eq.mp ‹(c == _) = true›
      exact .escape (by decide)
  · -- a control character that no letter stands for
    have hzero : ('0', 0) ∈ hexDigits := by decide
    have hhigh := digitChar_mem_hexDigits (c.toNat / 16) (by omega)
    have hlow := digitChar_mem_hexDigits (c.toNat % 16) (by omega)
    have hcode : 16 * (16 * (16 * 0 + 0) + c.toNat / 16) + c.toNat % 16 = c.toNat := by omega
    have hspells := SpellsCode.hex hzero hzero hhigh hlow
    rwa [hcode] at hspells
  · exact .plain (mt beq_iff_eq.mpr hquote) (mt beq_iff_eq.mpr hbackslash) (Nat.not_lt.mp hcontrol)

theorem spellsCodes_flatMap_escape (cs : List Char) :
    SpellsCodes (cs.map Char.toNat) (cs.flatMap escape) := by
  induction cs with
  | nil => exact .nil
  | cons c cs ih => exact .cons (spellsCode_escape c) ih

end Json

namespace Report

/-! ## Objects -/

/-- The member has the name, and the text for its value. -/
def IsField (name text : String) (m : List Nat × Json) : Prop :=
  Json.Denotes m.1 name.toList ∧ ∃ codes, m.2 = .string codes ∧ Json.Denotes codes text.toList

/-- The member has the name of neither field. Its value may be anything. -/
def IsForeign (m : List Nat × Json) : Prop :=
  ∃ name : String, Json.Denotes m.1 name.toList ∧ name ∉ ["String", "Symbol"]

/-- An object with these members has the two texts of the report as fields, in either order and
among members of other names. -/
def IsCarriedBy (r : Report) (members : List (List Nat × Json)) : Prop :=
  ∃ english symbolic others, members.Perm (english :: symbolic :: others) ∧
    IsField "String" r.english english ∧ IsField "Symbol" r.symbolic symbolic ∧
      ∀ m ∈ others, IsForeign m

theorem mapM_eq_some {α β : Type} {f : α → Option β} {g : α → β} {xs : List α}
    (h : ∀ x ∈ xs, f x = some (g x)) : xs.mapM f = some (xs.map g) := by
  induction xs with
  | nil => rfl
  | cons x xs ih =>
    obtain ⟨hx, hxs⟩ := List.forall_mem_cons.mp h
    rw [List.mapM_cons, hx, ih hxs]
    rfl

/-- The text of the one member of a name. -/
theorem field?_eq {named others : List (String × Json)} {name text : String} {codes : List Nat}
    (hperm : named.Perm ((name, .string codes) :: others)) (hothers : ∀ m ∈ others, m.1 ≠ name)
    (htext : Json.Denotes codes text.toList) : field? named name = some text := by
  have hnone : (others.filter fun m => m.1 == name) = [] := by
    simpa [List.filter_eq_nil_iff] using hothers
  have hfilter : (named.filter fun m => m.1 == name) = [(name, .string codes)] := by
    have hsingle := hperm.filter fun m => m.1 == name
    rw [List.filter_cons_of_pos (by simp), hnone] at hsingle
    exact List.perm_singleton.mp hsingle
  have hvalue : textOf? (.string codes) = some text := htext.text?_eq
  unfold field?
  rw [hfilter]
  exact hvalue

/-- The member under its name, if it has one. -/
def named (m : List Nat × Json) : String × Json := ((Json.text? m.1).getD "", m.2)

theorem named_eq {name : String} {m : List Nat × Json} (h : Json.Denotes m.1 name.toList) :
    named m = (name, m.2) := by
  rw [named, h.text?_eq]
  rfl

/-- The report in the two fields. -/
def ofNamed? (members : List (String × Json)) : Option Report := do
  return ⟨← field? members "String", ← field? members "Symbol"⟩

theorem ofJson?_object {members : List (List Nat × Json)}
    (h : ∀ m ∈ members, ∃ name : String, Json.Denotes m.1 name.toList) :
    ofJson? (.object members) = ofNamed? (members.map named) := by
  have hbind : ofJson? (.object members) =
      (members.mapM fun m => (Json.text? m.1).map fun name => (name, m.2)).bind ofNamed? := rfl
  rw [hbind, mapM_eq_some, Option.bind_some]
  intro m hm
  obtain ⟨name, hname⟩ := h m hm
  rw [named_eq hname, hname.text?_eq, Option.map_some]

namespace IsCarriedBy

variable {r : Report} {members : List (List Nat × Json)}

theorem exists_name (h : r.IsCarriedBy members) :
    ∀ m ∈ members, ∃ name : String, Json.Denotes m.1 name.toList := by
  obtain ⟨english, symbolic, others, hperm, henglish, hsymbolic, hothers⟩ := h
  intro m hm
  obtain rfl | rfl | hm : m = english ∨ m = symbolic ∨ m ∈ others := by
    simpa using hperm.mem_iff.mp hm
  · exact ⟨_, henglish.1⟩
  · exact ⟨_, hsymbolic.1⟩
  · exact (hothers m hm).imp fun _ h => h.1

theorem exists_perm (h : r.IsCarriedBy members) : ∃ english symbolic others,
    (members.map named).Perm
      (("String", .string english) :: ("Symbol", .string symbolic) :: others) ∧
    Json.Denotes english r.english.toList ∧ Json.Denotes symbolic r.symbolic.toList ∧
      ∀ m ∈ others, m.1 ≠ "String" ∧ m.1 ≠ "Symbol" := by
  obtain ⟨english, symbolic, others, hperm, ⟨hename, ecodes, hevalue, hetext⟩,
    ⟨hsname, scodes, hsvalue, hstext⟩, hothers⟩ := h
  refine ⟨ecodes, scodes, others.map named, ?_, hetext, hstext, ?_⟩
  · rw [← hevalue, ← hsvalue, ← named_eq hename, ← named_eq hsname]
    exact hperm.map named
  · intro m hm
    obtain ⟨other, hother, rfl⟩ := List.mem_map.mp hm
    obtain ⟨name, hname, hne⟩ := hothers other hother
    rw [named_eq hname]
    simpa using hne

theorem ofJson?_eq (h : r.IsCarriedBy members) : ofJson? (.object members) = some r := by
  obtain ⟨english, symbolic, others, hperm, henglish, hsymbolic, hothers⟩ := h.exists_perm
  have hne : "Symbol" ≠ "String" := by decide
  have henglish : field? (members.map named) "String" = some r.english :=
    field?_eq hperm (List.forall_mem_cons.mpr ⟨hne, fun m hm => (hothers m hm).1⟩) henglish
  have hsymbolic : field? (members.map named) "Symbol" = some r.symbolic :=
    field?_eq (hperm.trans (.swap ..))
      (List.forall_mem_cons.mpr ⟨hne.symm, fun m hm => (hothers m hm).2⟩) hsymbolic
  rw [ofJson?_object h.exists_name, ofNamed?, henglish, hsymbolic]
  rfl

theorem parse?_eq {text : String} (h : r.IsCarriedBy members)
    (htext : Json.Spells (Json.object members).toTokens text.toList) : parse? text = some r := by
  rw [parse?, htext.parse?_eq, Option.bind_some, h.ofJson?_eq]

end IsCarriedBy

/-! ## What is written -/

/-- The two members that are written. -/
def members (r : Report) : List (List Nat × Json) :=
  [("String".toList.map Char.toNat, .string (r.english.toList.map Char.toNat)),
    ("Symbol".toList.map Char.toNat, .string (r.symbolic.toList.map Char.toNat))]

theorem isCarriedBy_members (r : Report) : r.IsCarriedBy r.members :=
  ⟨_, _, [], .refl _, ⟨.map_toNat _, _, rfl, .map_toNat _⟩, ⟨.map_toNat _, _, rfl, .map_toNat _⟩,
    List.forall_mem_nil _⟩

theorem toTokens_members (r : Report) :
    (Json.object r.members).toTokens =
      [.openObject, .string ("String".toList.map Char.toNat), .colon,
        .string (r.english.toList.map Char.toNat), .comma,
        .string ("Symbol".toList.map Char.toNat), .colon,
        .string (r.symbolic.toList.map Char.toNat), .closeObject] := by
  simp [Json.toTokens, Json.separate, members]

theorem toList_quote (text : String) :
    (Json.quote text).toList = '"' :: (text.toList.flatMap Json.escape ++ ['"']) := by
  simp [Json.quote]

theorem toList_toJson (r : Report) :
    r.toJson.toList = '\x7b' :: '"' :: ("String".toList.flatMap Json.escape ++
      '"' :: ':' :: '"' :: (r.english.toList.flatMap Json.escape ++
      '"' :: ',' :: '"' :: ("Symbol".toList.flatMap Json.escape ++
      '"' :: ':' :: '"' :: (r.symbolic.toList.flatMap Json.escape ++ ['"', '\x7d'])))) := by
  have hfirst : "\x7b\"String\":".toList =
      '\x7b' :: '"' :: ("String".toList.flatMap Json.escape ++ ['"', ':']) := by decide +kernel
  have hsecond : ",\"Symbol\":".toList =
      ',' :: '"' :: ("Symbol".toList.flatMap Json.escape ++ ['"', ':']) := by decide +kernel
  have hlast : "\x7d".toList = ['\x7d'] := by decide +kernel
  rw [toJson]
  generalize "\x7b\"String\":" = first at hfirst ⊢
  generalize ",\"Symbol\":" = second at hsecond ⊢
  generalize "\x7d" = last at hlast ⊢
  simp [toList_quote, hfirst, hsecond, hlast]

theorem spells_toJson (r : Report) :
    Json.Spells (Json.object r.members).toTokens r.toJson.toList := by
  rw [toTokens_members, toList_toJson]
  refine .mark (by decide) (.string (Json.spellsCodes_flatMap_escape _) (.mark (by decide) ?_))
  refine .string (Json.spellsCodes_flatMap_escape _) (.mark (by decide) ?_)
  refine .string (Json.spellsCodes_flatMap_escape _) (.mark (by decide) ?_)
  exact .string (Json.spellsCodes_flatMap_escape _) (.mark (by decide) .nil)

/-- A report is read back from what is written for it, and from every other JSON text of an object
with its two texts as fields: whatever the order of the members, the members with other names, the
spelling of strings, and the space around tokens. -/
theorem parse?_of_carried (r : Report) :
    parse? r.toJson = some r ∧
      ∀ (text : String) (members : List (List Nat × Json)), r.IsCarriedBy members →
        Json.Spells (Json.object members).toTokens text.toList → parse? text = some r :=
  ⟨r.isCarriedBy_members.parse?_eq r.spells_toJson,
    fun _ _ hmembers htext => hmembers.parse?_eq htext⟩

/-- The fields in the other order, behind a member with a number and a literal in it; with space,
and a character as a pair of surrogates. -/
theorem parse?_of_carried_behind :
    let r : Report := ⟨"\\ \x01", "😀"⟩
    let text := "\x7b \"x\" : [-1.5e+3 , \x7b\"y\":null\x7d],\"Symbol\":\"\\ud83d\\uDE00\",\n" ++
      "\"String\":\"\\\\ \\u0001\" \x7d"
    let members : List (List Nat × Json) :=
      [("x".toList.map Char.toNat,
          .array [.number, .object [("y".toList.map Char.toNat, .literal)]]),
        ("Symbol".toList.map Char.toNat, .string [0xD83D, 0xDE00]),
        ("String".toList.map Char.toNat, .string (r.english.toList.map Char.toNat))]
    r.IsCarriedBy members ∧ Json.Spells (Json.object members).toTokens text.toList ∧
      parse? text = some r := by
  intro r text members
  have hmembers : r.IsCarriedBy members := by
    have hsymbolic : r.symbolic.toList = ['😀'] := by decide +kernel
    have hpair : Json.Denotes [0xD83D, 0xDE00] ['😀'] :=
      Json.Denotes.pair (c := '😀') (by decide) .nil
    rw [← hsymbolic] at hpair
    exact ⟨_, _, _, (List.reverse_perm members).symm, ⟨.map_toNat _, _, rfl, .map_toNat _⟩,
      ⟨.map_toNat _, _, rfl, hpair⟩,
      List.forall_mem_singleton.mpr ⟨"x", .map_toNat _, by decide⟩⟩
  have htext : text.toList = '\x7b' :: ' ' :: '"' :: ("x".toList.flatMap Json.escape ++ '"' ::
      ' ' :: ':' :: ' ' :: '[' :: (['-', '1', '.', '5', 'e', '+', '3'] ++ ' ' :: ',' :: ' ' ::
      '\x7b' :: '"' :: ("y".toList.flatMap Json.escape ++ '"' :: ':' :: ("null".toList ++
      '\x7d' :: ']' :: ',' :: '"' :: ("Symbol".toList.flatMap Json.escape ++ '"' :: ':' :: '"' ::
      (['\\', 'u', 'd', '8', '3', 'd', '\\', 'u', 'D', 'E', '0', '0'] ++ '"' :: ',' :: '\n' ::
      '"' :: ("String".toList.flatMap Json.escape ++ '"' :: ':' :: '"' ::
      (r.english.toList.flatMap Json.escape ++ '"' :: ' ' :: ['\x7d'])))))))) := by
    decide +kernel
  have hnumber : Json.IsNumber ['-', '1', '.', '5', 'e', '+', '3'] :=
    ⟨['-'], ['1'], ['.', '5'], ['e', '+', '3'], by decide, Or.inr ⟨⟨by decide, rfl⟩, by decide⟩,
      Or.inr ⟨['5'], ⟨by decide, rfl⟩, rfl⟩,
      Or.inr ⟨'e', ['+'], ['3'], by decide, by decide, ⟨by decide, rfl⟩, rfl⟩, rfl⟩
  have hends : ∀ cs, Json.EndsNumber (' ' :: cs) := by
    intro cs c hc
    cases hc
    decide
  have hpair : Json.SpellsCodes [0xD83D, 0xDE00]
      ['\\', 'u', 'd', '8', '3', 'd', '\\', 'u', 'D', 'E', '0', '0'] := by
    have hd : ('d', 13) ∈ Json.hexDigits := by decide
    have h8 : ('8', 8) ∈ Json.hexDigits := by decide
    have h3 : ('3', 3) ∈ Json.hexDigits := by decide
    have hD : ('D', 13) ∈ Json.hexDigits := by decide
    have hE : ('E', 14) ∈ Json.hexDigits := by decide
    have h0 : ('0', 0) ∈ Json.hexDigits := by decide
    exact .cons (.hex hd h8 h3 hd) (.cons (.hex hD hE h0 h0) .nil)
  have hspells : Json.Spells (Json.object members).toTokens text.toList := by
    have hplain := Json.spellsCodes_flatMap_escape
    rw [htext]
    simp only [members, Json.toTokens, Json.separate, List.map_cons, List.map_nil,
      List.flatMap_cons, List.flatMap_nil, List.cons_append, List.nil_append, List.append_nil]
    refine .mark (by decide) (.space (by decide) (.string (hplain _) (.space (by decide) ?_)))
    refine .mark (by decide) (.space (by decide) (.mark (by decide) ?_))
    refine .number hnumber (hends _) (.space (by decide) (.mark (by decide) ?_))
    refine .space (by decide) (.mark (by decide) (.string (hplain _) (.mark (by decide) ?_)))
    refine .literal (by decide) (.mark (by decide) (.mark (by decide) (.mark (by decide) ?_)))
    refine .string (hplain _) (.mark (by decide) (.string hpair (.mark (by decide) ?_)))
    refine .space (by decide) (.string (hplain _) (.mark (by decide) ?_))
    exact .string (hplain _) (.space (by decide) (.mark (by decide) .nil))
  exact ⟨hmembers, hspells, (parse?_of_carried r).2 text members hmembers hspells⟩

end Report

end Turnstile
