import Mathlib.Data.List.Forall2
import Turnstile.Prompt

/-!
Lines of texts and of their bytes. A line is commonly said to end with a line feed, before which one
carriage return is dropped. The cutting of `Text.cutAfter` drops no carriage return, which makes no
difference once lines are trimmed, and no difference to whether bytes are a text.

* `Text.linesOf`: the lines, from the pieces between line feeds. `Text.forall₂_cutAfter_linesOf`:
  what `Text.cutAfter` gives differs from them in one carriage return at most;
* `Text.encode`: the bytes of a text. `decodeText_eq_ok_iff`: decoding finds the text of the bytes
  if there is one;
* `Text.cutAfter_encode`: the lines of the bytes are the bytes of the lines, for the byte of a line
  feed is part of no other character.
-/

namespace Turnstile

namespace Text

/-! ## Lines -/

section Lines

variable {α : Type} [BEq α]

/-- The piece without the carriage return at its end, if it has one. -/
def dropReturn (ret : α) (piece : List α) : List α :=
  if piece.getLast? == some ret then piece.dropLast else piece

/-- The lines that pieces with a terminator between them stand for: one for every piece that the
terminator follows, and the last piece if anything is in it. -/
def finishLines (finish : List α → List α) : List (List α) → List (List α)
  | [] => []
  | [last] => if last.isEmpty then [] else [last]
  | piece :: rest => finish piece :: finishLines finish rest

/-- Lines end with a line feed, and a carriage return before it is not part of the line. The last
line may be without. -/
def linesOf (ret feed : α) (xs : List α) : List (List α) :=
  finishLines (dropReturn ret) (xs.splitOn feed)

/-- The first is the second, perhaps with a carriage return behind it. -/
def ExtendsBy (ret : α) (line line' : List α) : Prop := line = line' ∨ line = line' ++ [ret]

theorem cutAfter_eq_finishLines (feed : α) (xs : List α) :
    cutAfter feed xs = finishLines id (xs.splitOn feed) := by
  induction xs with
  | nil => rfl
  | cons x xs ih =>
    obtain ⟨piece, pieces, hpieces⟩ := List.exists_cons_of_ne_nil (List.splitOn_ne_nil feed xs)
    rw [cutAfter, ih, List.splitOn_cons_eq_if_modifyHead, hpieces]
    cases x == feed with
    | true => rfl
    | false =>
      cases pieces with
      | nil => cases piece <;> rfl
      | cons => rfl

variable [LawfulBEq α]

theorem extendsBy_dropReturn (ret : α) (piece : List α) :
    ExtendsBy ret piece (dropReturn ret piece) := by
  unfold dropReturn
  split
  · next hlast =>
    obtain ⟨rest, rfl⟩ := List.getLast?_eq_some_iff.mp (eq_of_beq hlast)
    rw [List.dropLast_concat]
    exact Or.inr rfl
  · exact Or.inl rfl

theorem forall₂_finishLines (ret : α) (pieces : List (List α)) :
    List.Forall₂ (ExtendsBy ret) (finishLines id pieces) (finishLines (dropReturn ret) pieces) := by
  induction pieces with
  | nil => exact .nil
  | cons piece pieces ih =>
    cases pieces with
    | nil =>
      cases piece with
      | nil => exact .nil
      | cons => exact .cons (Or.inl rfl) .nil
    | cons => exact .cons (extendsBy_dropReturn ret piece) ih

theorem forall₂_cutAfter_linesOf (ret feed : α) (xs : List α) :
    List.Forall₂ (ExtendsBy ret) (cutAfter feed xs) (linesOf ret feed xs) := by
  rw [cutAfter_eq_finishLines]
  exact forall₂_finishLines ret _

theorem cutAfter_append {feed : α} {xs : List α} (hne : xs ≠ []) (h : feed ∉ xs) (ys : List α) :
    cutAfter feed (xs ++ ys) =
      match cutAfter feed ys with
      | [] => [xs]
      | piece :: pieces => (xs ++ piece) :: pieces := by
  induction xs with
  | nil => exact absurd rfl hne
  | cons x xs ih =>
    obtain ⟨hx, hxs⟩ := not_or.mp (mt List.mem_cons.mpr h)
    have hx : (x == feed) = false := beq_false_of_ne (Ne.symm hx)
    cases xs with
    | nil =>
      rw [List.singleton_append, cutAfter, hx]
      rfl
    | cons =>
      rw [List.cons_append, cutAfter, hx, ih (List.cons_ne_nil _ _) hxs]
      cases cutAfter feed ys <;> rfl

end Lines

/-- Blanks at the end make no difference to a trimmed line. -/
theorem ExtendsBy.trim_eq {line line' : List Char} (h : ExtendsBy '\r' line line') :
    trim line = trim line' := by
  obtain rfl | rfl := h
  · rfl
  · have hblank : isBlank '\r' = true := rfl
    unfold trim
    rw [List.dropWhile_append]
    split
    · next hempty => simp [List.isEmpty_iff.mp hempty, hblank]
    · simp [hblank]

/-! ## Bytes -/

/-- The bytes of a text. -/
def encode (cs : List Char) : List UInt8 := cs.flatMap String.utf8EncodeChar

theorem utf8Encode_eq (cs : List Char) : cs.utf8Encode = ⟨(encode cs).toArray⟩ := by
  refine ByteArray.ext (Array.toList_inj.mp ?_)
  rw [List.utf8Encode, List.toList_data_toByteArray, encode]

theorem encode_append (cs ds : List Char) : encode (cs ++ ds) = encode cs ++ encode ds :=
  List.flatMap_append

/-- A byte below 128 is a character by itself. -/
theorem toNat_eq_of_mem_utf8EncodeChar {b : UInt8} {c : Char} (hb : b.toNat < 128)
    (h : b ∈ String.utf8EncodeChar c) : c.toNat = b.toNat := by
  -- the bytes of a longer character are all at least 128
  have hlow : ∀ n, 128 ≤ n → n < 256 → b ≠ UInt8.ofNat n := by
    rintro n hn hn' rfl
    rw [UInt8.toNat_ofNat'] at hb
    omega
  revert h
  fun_cases String.utf8EncodeChar c with
  | case1 v hv =>
    intro h
    have hc : c.toNat ≤ 127 := hv
    rw [List.mem_singleton.mp h, UInt8.toNat_ofNat']
    exact (Nat.mod_eq_of_lt (by omega)).symm
  | case2 | case3 | case4 =>
    simp (disch := omega) only [List.mem_cons, List.not_mem_nil, hlow, or_self, false_implies]

theorem eq_return_of_mem {c : Char} (h : 13 ∈ String.utf8EncodeChar c) : c = '\r' :=
  Char.toNat_inj.mp (toNat_eq_of_mem_utf8EncodeChar (by decide) h)

theorem eq_feed_of_mem {c : Char} (h : 10 ∈ String.utf8EncodeChar c) : c = '\n' :=
  Char.toNat_inj.mp (toNat_eq_of_mem_utf8EncodeChar (by decide) h)

theorem exists_eq_encode_of_concat {bytes : List UInt8} {cs : List Char}
    (h : bytes ++ [13] = encode cs) : ∃ ds, bytes = encode ds := by
  obtain rfl | ⟨ds, c, rfl⟩ := List.eq_nil_or_concat' cs
  · cases bytes <;> cases h
  · have hlast : encode [c] = String.utf8EncodeChar c := List.flatMap_singleton _ c
    rw [encode_append, hlast] at h
    -- the last character has the carriage return among its bytes, so it is one
    have hmem : 13 ∈ String.utf8EncodeChar c := by
      have hbyte := congrArg List.getLast? h
      rw [List.getLast?_concat, List.getLast?_append_of_ne_nil _ String.utf8EncodeChar_ne_nil]
        at hbyte
      exact List.mem_of_getLast? hbyte.symm
    obtain rfl := eq_return_of_mem hmem
    exact ⟨ds, List.append_cancel_right h⟩

theorem cutAfter_encode (cs : List Char) :
    cutAfter 10 (encode cs) = (cutAfter '\n' cs).map encode := by
  induction cs with
  | nil => rfl
  | cons c cs ih =>
    by_cases hc : c = '\n'
    · subst hc
      have hfeed : encode ('\n' :: cs) = 10 :: encode cs := rfl
      rw [hfeed, cutAfter, ih]
      rfl
    · have hbytes : encode (c :: cs) = String.utf8EncodeChar c ++ encode cs := List.flatMap_cons
      rw [hbytes, cutAfter_append String.utf8EncodeChar_ne_nil (mt eq_feed_of_mem hc), ih, cutAfter,
        if_neg (by simpa using hc)]
      cases cutAfter '\n' cs <;> simp [encode]

end Text

/-- Bytes are read as a text just if they are its bytes. -/
theorem decodeText_eq_ok_iff {bytes : List UInt8} {cs : List Char} :
    decodeText bytes = .ok cs ↔ bytes = Text.encode cs := by
  have hencode : (⟨bytes.toArray⟩ : ByteArray) = cs.utf8Encode ↔ bytes = Text.encode cs := by
    rw [Text.utf8Encode_eq]
    simp
  unfold decodeText String.fromUTF8?
  by_cases hvalid : ByteArray.IsValidUTF8 ⟨bytes.toArray⟩
  · have htext : String.fromUTF8 _ hvalid = String.ofList cs ↔ bytes = Text.encode cs := by
      rw [← hencode, ← String.toByteArray_inj, String.toByteArray_ofList]
      rfl
    rw [dif_pos hvalid, ← htext, Except.ok.injEq, ← String.toList_inj, String.toList_ofList]
  · have hne : bytes ≠ Text.encode cs := by
      rintro rfl
      exact hvalid (.intro cs (hencode.mpr rfl))
    simp [hvalid, hne]

theorem decodeText_eq_error_iff {bytes : List UInt8} :
    decodeText bytes = .error .notText ↔ ∀ cs, bytes ≠ Text.encode cs := by
  simp only [ne_eq, ← decodeText_eq_ok_iff]
  cases decodeText bytes with
  | ok cs => simp
  | error e => simp

/-- A carriage return behind them makes no difference to whether bytes are a text. -/
theorem Text.ExtendsBy.text_cases {bytes bytes' : List UInt8} (h : ExtendsBy 13 bytes bytes') :
    (∃ cs cs', bytes = encode cs ∧ bytes' = encode cs' ∧ ExtendsBy '\r' cs cs') ∨
      ((∀ cs, bytes ≠ encode cs) ∧ ∀ cs, bytes' ≠ encode cs) := by
  obtain rfl | rfl := h
  · by_cases htext : ∃ cs, bytes = encode cs
    · obtain ⟨cs, hcs⟩ := htext
      exact Or.inl ⟨cs, cs, hcs, hcs, Or.inl rfl⟩
    · exact Or.inr ⟨not_exists.mp htext, not_exists.mp htext⟩
  · by_cases htext : ∃ cs, bytes' = encode cs
    · obtain ⟨cs, rfl⟩ := htext
      exact Or.inl ⟨cs ++ ['\r'], cs, (encode_append cs ['\r']).symm, rfl, Or.inr rfl⟩
    · exact Or.inr ⟨fun cs hcs => htext (exists_eq_encode_of_concat hcs), not_exists.mp htext⟩

end Turnstile
