import Turnstile.Proofs.RoundTrip

/-!
Where the lexemes of a text stand in it.

* `Span.after`: the place of characters that come behind given ones, with its column and its bytes.
  `Point.span_past_origin`: the points that cutting goes through lead to such places;
* `Span.StandsAfter`: a place in a text, given by the characters before it. `Span.LiesIn`: its bytes
  in the text, from one character to another;
* `StartsNothing`: a text at whose start there is neither a blank nor a token;
* `Scan.Next`: how a text is cut that does not start with a blank. `Scan.exists_next`: every text is
  cut in this way behind its blanks;
* `Scan.exists_split`: the lexemes split in two come from the text split in two. So what stands
  before a lexeme spells the tokens before it (`Scan.exists_standsAfter_lexeme`).
-/

namespace Turnstile

/-! ## Characters and bytes -/

theorem Text.byteSize_eq (cs : List Char) :
    Text.byteSize cs = (String.ofList cs).utf8ByteSize := by
  induction cs with
  | nil => rfl
  | cons c cs ih =>
    rw [String.ofList_cons, String.utf8ByteSize_append, String.utf8ByteSize_singleton, ← ih]
    rfl

/-- The place of characters that come right behind others. -/
def Span.after (before cs : List Char) : Span :=
  ⟨before.length + 1, (String.ofList before).utf8ByteSize,
    (String.ofList (before ++ cs)).utf8ByteSize, cs⟩

namespace Point

theorem past_past (p : Point) (cs ds : List Char) : (p.past cs).past ds = p.past (cs ++ ds) := by
  simp only [past, Text.byteSize_eq, List.length_append, String.ofList_append,
    String.utf8ByteSize_append, Nat.add_assoc]

theorem span_past_origin (before cs : List Char) :
    (origin.past before).span cs = .after before cs := by
  simp only [span, past, origin, Span.after, Text.byteSize_eq, String.ofList_append,
    String.utf8ByteSize_append, Nat.zero_add, Nat.add_comm 1]

end Point

/-- The place is in the text, right behind the characters `before`. -/
structure Span.StandsAfter (place : Span) (before text : List Char) : Prop where
  place_eq : place = .after before place.text
  text_eq : ∃ after, text = before ++ (place.text ++ after)

/-- The place starts and ends between characters of the text, and the bytes in between are those of
the characters that stand there. -/
structure Span.LiesIn (place : Span) (text : String) : Prop where
  start : String.Pos.Raw.IsValid text ⟨place.startByte⟩
  stop : String.Pos.Raw.IsValid text ⟨place.endByte⟩
  bytes : text.toByteArray.extract place.startByte place.endByte =
    (String.ofList place.text).toByteArray

theorem Span.StandsAfter.liesIn {place : Span} {before : List Char} {text : String}
    (h : place.StandsAfter before text.toList) : place.LiesIn text := by
  obtain ⟨after, htext⟩ := h.text_eq
  rw [h.place_eq]
  generalize place.text = cs at htext
  have htext : text = String.ofList before ++ (String.ofList cs ++ String.ofList after) := by
    rw [← String.ofList_append, ← String.ofList_append, ← htext, String.ofList_toList]
  constructor
  · exact String.Pos.Raw.isValid_iff_exists_append.mpr ⟨_, _, htext, rfl⟩
  · refine String.Pos.Raw.isValid_iff_exists_append.mpr
      ⟨String.ofList (before ++ cs), String.ofList after, ?_, rfl⟩
    rw [htext, String.ofList_append, String.append_assoc]
  · have hend : (Span.after before cs).endByte = (String.ofList before).toByteArray.size +
        (String.ofList cs).toByteArray.size := by
      rw [Span.after, String.ofList_append, String.utf8ByteSize_append]
      rfl
    have hstart : (Span.after before cs).startByte = (String.ofList before).toByteArray.size + 0 :=
      rfl
    rw [htext, hstart, hend, String.toByteArray_append, String.toByteArray_append,
      ByteArray.extract_append_size_add]
    exact ByteArray.extract_append_eq_left rfl

/-! ## Cutting -/

structure StartsNothing (cs : List Char) : Prop where
  blank : ∀ c rest, cs = c :: rest → Text.isBlank c = false
  token : ∀ t word rest, Token.SpelledBy t word → cs ≠ word ++ rest

theorem startsNothing_nil : StartsNothing [] where
  blank _ _ h := nomatch h
  token t word rest hword h := by
    obtain ⟨rfl, _⟩ := List.append_eq_nil_iff.mp h.symm
    have hscan := Scan.fromPoint_word hword .origin []
    cases hscan

theorem spells_nil_of_blank {cs : List Char} (h : cs.all Text.isBlank = true) : Spells cs [] := by
  induction cs with
  | nil => exact .nil
  | cons c cs ih =>
    obtain ⟨hc, hcs⟩ := Bool.and_eq_true_iff.mp h
    exact .blank hc (ih hcs)

namespace Scan

variable {p : Point} {cs : List Char}

/-- Where cutting stops at once, no token is spelled. -/
theorem startsNothing_of_stop {c : Char} {rest : List Char} (hblank : Text.isBlank c = false)
    (hstop : fromPoint p (c :: rest) = ⟨[], p.span [c]⟩) : StartsNothing (c :: rest) where
  blank c' rest' h := by
    cases h
    exact hblank
  token t word rest' hword h := by
    rw [h, fromPoint_word hword] at hstop
    cases hstop

/-- How a text is cut that does not start with a blank: a token comes first, or cutting stops. -/
inductive Next (p : Point) : List Char → Scan → Prop
  | token {t : Token} {word : List Char} (hword : t.SpelledBy word) (rest : List Char) :
      Next p (word ++ rest) (push t p word (fromPoint (p.past word) rest))
  | stop {rest : List Char} (h : StartsNothing rest) : Next p rest ⟨[], p.span (rest.take 1)⟩

theorem Next.of_cons {x : Lexeme} {ys : List Lexeme} {stop : Span} {rest : List Char}
    (h : Next p rest ⟨x :: ys, stop⟩) :
    ∃ after, rest = x.span.text ++ after ∧ x.token.SpelledBy x.span.text ∧
      x.span = p.span x.span.text ∧ fromPoint (p.past x.span.text) after = ⟨ys, stop⟩ := by
  cases h with
  | token hword after => exact ⟨after, rfl, hword, rfl, rfl⟩

theorem Next.of_nil {stop : Span} {rest : List Char} (h : Next p rest ⟨[], stop⟩) :
    StartsNothing rest ∧ stop = p.span (rest.take 1) := by
  cases h with
  | stop h => exact ⟨h, rfl⟩

theorem exists_next (p : Point) (cs : List Char) :
    ∃ blanks rest, cs = blanks ++ rest ∧ blanks.all Text.isBlank = true ∧
      Next (p.past blanks) rest (fromPoint p cs) := by
  fun_induction fromPoint p cs with
  | case1 p => exact ⟨[], [], rfl, rfl, .stop startsNothing_nil⟩
  | case2 p cs =>
    have hword : Token.iff.SpelledBy ['<', '-', '>'] := .of_mem (by decide)
    exact ⟨[], _, rfl, rfl, .token hword cs⟩
  | case3 p cs =>
    have hword : Token.iff.SpelledBy ['<', '>'] := .of_mem (by decide)
    exact ⟨[], _, rfl, rfl, .token hword cs⟩
  | case4 p cs =>
    have hword : Token.implies.SpelledBy ['-', '>'] := .of_mem (by decide)
    exact ⟨[], _, rfl, rfl, .token hword cs⟩
  | case5 p c cs _ _ _ hblank ih =>
    obtain ⟨blanks, rest, rfl, hblanks, hnext⟩ := ih
    refine ⟨c :: blanks, rest, rfl, Bool.and_eq_true_iff.mpr ⟨hblank, hblanks⟩, ?_⟩
    rwa [Point.past_past] at hnext
  | case6 p c cs _ _ _ _ t ht =>
    exact ⟨[], _, rfl, rfl, .token (Token.spelledBy_of_ofChar? ht) cs⟩
  | case7 p c cs hiff hiff' himplies hblank hnone =>
    have hstop : fromPoint p (c :: cs) = ⟨[], p.span [c]⟩ := by
      rw [fromPoint.eq_def]
      split
      · next h => cases h
      · next h => exact (hiff _ (List.cons.inj h).1 (List.cons.inj h).2).elim
      · next h => exact (hiff' _ (List.cons.inj h).1 (List.cons.inj h).2).elim
      · next h => exact (himplies _ (List.cons.inj h).1 (List.cons.inj h).2).elim
      · next h =>
        cases h
        rw [if_neg hblank, hnone]
    have hnothing := startsNothing_of_stop ((Bool.not_eq_true _).mp hblank) hstop
    exact ⟨[], c :: cs, rfl, rfl, .stop hnothing⟩

/-- Lexemes split in two come from a text split in two. -/
theorem exists_split {xs ys : List Lexeme} (h : (fromPoint p cs).lexemes = xs ++ ys) :
    ∃ before rest, cs = before ++ rest ∧ Spells before (xs.map Lexeme.token) ∧
      Next (p.past before) rest ⟨ys, (fromPoint p cs).stop⟩ := by
  induction xs generalizing p cs with
  | nil =>
    obtain ⟨blanks, rest, htext, hblanks, hnext⟩ := exists_next p cs
    refine ⟨blanks, rest, htext, spells_nil_of_blank hblanks, ?_⟩
    rw [List.nil_append] at h
    rwa [← h]
  | cons x xs ih =>
    obtain ⟨blanks, rest, rfl, hblanks, hnext⟩ := exists_next p cs
    generalize fromPoint p _ = scan at h hnext ⊢
    cases hnext with
    | stop => cases h
    | @token t word hword rest =>
      obtain ⟨rfl, hrest⟩ := List.cons.inj h
      obtain ⟨before, rest, rfl, hspells, hnext⟩ := ih hrest
      refine ⟨blanks ++ (word ++ before), rest, by simp, ?_, ?_⟩
      · exact (spells_nil_of_blank hblanks).append (.token hword hspells)
      · rwa [← Point.past_past, ← Point.past_past]

variable {text : String}

/-- A lexeme stands behind what spells the tokens before it. -/
theorem exists_standsAfter_lexeme {x : Lexeme} {xs ys : List Lexeme}
    (h : (ofText text).lexemes = xs ++ x :: ys) :
    ∃ before, x.span.StandsAfter before text.toList ∧ Spells before (xs.map Lexeme.token) ∧
      x.token.SpelledBy x.span.text := by
  obtain ⟨before, rest, htext, hspells, hnext⟩ := exists_split h
  obtain ⟨after, rfl, hword, hplace, _⟩ := hnext.of_cons
  rw [Point.span_past_origin] at hplace
  exact ⟨before, ⟨hplace, after, htext⟩, hspells, hword⟩

theorem stop_eq_of_text_eq_nil (h : (ofText text).stop.text = []) :
    (ofText text).stop = .after text.toList [] := by
  have hall : (ofText text).lexemes = (ofText text).lexemes ++ [] := (List.append_nil _).symm
  obtain ⟨before, rest, htext, _, hnext⟩ := exists_split hall
  obtain ⟨_, hstop⟩ := hnext.of_nil
  have hstop : (ofText text).stop = .after before (rest.take 1) :=
    hstop.trans (Point.span_past_origin before _)
  rw [hstop] at h ⊢
  cases rest with
  | nil => rw [htext, List.append_nil, List.take_nil]
  | cons c rest => cases h

end Scan

end Turnstile
