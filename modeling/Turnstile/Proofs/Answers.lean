import Turnstile.CommandLine
import Turnstile.Proofs.Lines

/-!
Answers to the problems on the lines of an input. Line by line, each problem is answered when it has
been read, and a line that cannot be read is passed over; from a file, all problems are read before
the first is answered, and one that cannot be read ends the run.

* `Problem.ofLine?`: the problem on a line, if there is one that can be read. `Prompt.answersTo`:
  what is to be printed for lines;
* `Prompt.value_answerLines`: this is what is printed line by line, up to the first line that is not
  text;
* `Problem.exists_parseMany_eq_ok_iff`: when the problems of a text can all be read.
  `Problem.eq_filterMap_of_parseMany_eq_ok`: what they are then;
* `Prompt.answers_lines_as_files_do`: hence both ways to answer problems print the same, if a file
  is answered at all.
-/

namespace Turnstile

/-! ## Line by line -/

/-- The problem on a line, if there is one that can be read. -/
def Problem.ofLine? (line : List Char) : Option Problem :=
  if isStated (Text.trim line) then (parse (Text.trim line)).toOption else none

namespace Prompt

variable (config : Config) (output : Output)

/-- What is to be printed for lines: a report on each problem, and a line feed behind it. -/
def answersTo (lines : List (List Char)) : String :=
  String.join ((lines.filterMap Problem.ofLine?).map fun p =>
    output.render (p.solve config).value.2.report ++ "\n")

theorem value_answerLine (line : List Char) :
    (answerLine config output line).value =
      match Problem.ofLine? line with
      | some p => output.render (p.solve config).value.2.report ++ "\n"
      | none => "" := by
  unfold answerLine Problem.ofLine?
  dsimp only
  split
  · cases Problem.parse (Text.trim line) <;> rfl
  · rfl

theorem answersTo_cons (line : List Char) (lines : List (List Char)) :
    answersTo config output (line :: lines) =
      (answerLine config output line).value ++ answersTo config output lines := by
  rw [value_answerLine, answersTo, List.filterMap_cons]
  cases Problem.ofLine? line with
  | none => exact String.empty_append.symm
  | some p => exact String.join_cons

theorem value_answerLines_cons {bytes : List UInt8} {line : List Char}
    (h : bytes = Text.encode line) (rest : List (List UInt8)) :
    (answerLines config output (bytes :: rest)).value =
      ((answerLine config output line).value ++ (answerLines config output rest).value.1,
        (answerLines config output rest).value.2) := by
  rw [answerLines, decodeText_eq_ok_iff.mpr h]
  rfl

theorem value_answerLine_eq {line line' : List Char} (h : Text.ExtendsBy '\r' line line') :
    (answerLine config output line).value = (answerLine config output line').value := by
  unfold answerLine
  rw [h.trim_eq]

/-- What is printed for pieces of an input, in terms of the lines that they stand for. -/
theorem value_answerLines {pieces lines : List (List UInt8)}
    (h : List.Forall₂ (Text.ExtendsBy 13) pieces lines) :
    ∃ texts rest, lines = texts.map Text.encode ++ rest ∧
      (∀ bytes ∈ rest.head?, ∀ cs, bytes ≠ Text.encode cs) ∧
      (answerLines config output pieces).value =
        (answersTo config output texts, if rest.isEmpty then none else some .notText) := by
  induction h with
  | nil => exact ⟨[], [], rfl, nofun, rfl⟩
  | @cons piece line pieces lines hline _ ih =>
    obtain ⟨cs, cs', hpiece, rfl, hreturn⟩ | ⟨hpiece, hbad⟩ := hline.text_cases
    · obtain ⟨texts, rest, rfl, hrest, hvalue⟩ := ih
      refine ⟨cs' :: texts, rest, rfl, hrest, ?_⟩
      rw [value_answerLines_cons config output hpiece, hvalue, answersTo_cons,
        value_answerLine_eq config output hreturn]
    · refine ⟨[], line :: lines, rfl, ?_, ?_⟩
      · intro bytes hbytes
        cases hbytes
        exact hbad
      · rw [answerLines, decodeText_eq_error_iff.mpr hpiece]
        rfl

theorem value_answerLines_encode (lines : List (List Char)) :
    (answerLines config output (lines.map Text.encode)).value =
      (answersTo config output lines, none) := by
  induction lines with
  | nil => rfl
  | cons line lines ih =>
    rw [List.map_cons, value_answerLines_cons config output rfl, ih, answersTo_cons]

end Prompt

/-! ## From a file -/

section Except

variable {ε α β : Type} {f : α → Except ε β}

theorem mapM_cons_eq_ok_iff {x : α} {xs : List α} {zs : List β} :
    (x :: xs).mapM f = .ok zs ↔ ∃ y ys, f x = .ok y ∧ xs.mapM f = .ok ys ∧ zs = y :: ys := by
  rw [List.mapM_cons]
  cases f x with
  | error e => exact iff_of_false nofun (by simp)
  | ok y =>
    cases xs.mapM f with
    | error e => exact iff_of_false nofun (by simp)
    | ok ys =>
      constructor
      · intro h
        exact ⟨y, ys, rfl, rfl, (Except.ok.inj h).symm⟩
      · rintro ⟨y', ys', hy, hys, rfl⟩
        cases hy
        cases hys
        rfl

theorem exists_mapM_eq_ok_iff {xs : List α} :
    (∃ ys, xs.mapM f = .ok ys) ↔ ∀ x ∈ xs, ∃ y, f x = .ok y := by
  induction xs with
  | nil => exact iff_of_true ⟨[], rfl⟩ nofun
  | cons x xs ih =>
    rw [List.forall_mem_cons, ← ih]
    simp only [mapM_cons_eq_ok_iff]
    constructor
    · rintro ⟨_, y, ys, hx, hxs, _⟩
      exact ⟨⟨y, hx⟩, ys, hxs⟩
    · rintro ⟨⟨y, hx⟩, ys, hxs⟩
      exact ⟨_, y, ys, hx, hxs, rfl⟩

theorem eq_filterMap_of_mapM_eq_ok {xs : List α} {ys : List β} (h : xs.mapM f = .ok ys) :
    ys = xs.filterMap fun x => (f x).toOption := by
  induction xs generalizing ys with
  | nil =>
    cases h
    rfl
  | cons x xs ih =>
    obtain ⟨y, ys, hx, hxs, rfl⟩ := mapM_cons_eq_ok_iff.mp h
    rw [List.filterMap_cons, hx, ← ih hxs]
    rfl

end Except

namespace Problem

theorem stated_eq (cs : List Char) :
    stated cs = ((Text.linesOf '\r' '\n' cs).map Text.trim).filter isStated := by
  have hlines := Text.forall₂_cutAfter_linesOf '\r' '\n' cs
  have htrim : (Text.lines cs).map Text.trim = (Text.linesOf '\r' '\n' cs).map Text.trim := by
    rw [← List.forall₂_eq_eq_eq, List.forall₂_map_left_iff, List.forall₂_map_right_iff]
    exact hlines.imp fun _ _ h => h.trim_eq
  rw [stated, htrim]

theorem exists_parseMany_eq_ok_iff (cs : List Char) :
    (∃ problems, parseMany cs = .ok problems) ↔ ∀ line ∈ Text.linesOf '\r' '\n' cs,
      isStated (Text.trim line) = true → ∃ p, parse (Text.trim line) = .ok p := by
  simp only [parseMany, exists_mapM_eq_ok_iff, stated_eq, List.mem_filter, List.mem_map, and_imp,
    forall_exists_index, forall_apply_eq_imp_iff₂]

theorem eq_filterMap_of_parseMany_eq_ok {cs : List Char} {problems : List Problem}
    (h : parseMany cs = .ok problems) : problems = (Text.lines cs).filterMap ofLine? := by
  rw [eq_filterMap_of_mapM_eq_ok h, stated, List.filterMap_filter, List.filterMap_map]
  rfl

end Problem

namespace CommandLine.Options

variable {o : Options}

theorem value_answerAll (o : Options) (problems : List Problem) :
    (o.answerAll problems).value = String.join (problems.map fun p =>
      o.output.render (p.solve o.config).value.2.report ++ "\n") := by
  rw [answerAll, Logged.value_bind, Logged.value_bind, Logged.value_pure, Logged.value_mapM]
  rfl

theorem value_run_file {files : Files} {name : String} {cs : List Char} {problems : List Problem}
    (hconclusion : o.value? .conclusion = .none) (hfiles : o.files = [name])
    (hname : files name = .ok (Text.encode cs)) (hparse : Problem.parseMany cs = .ok problems)
    (input : List UInt8) :
    (o.run files input).value = ⟨0, Prompt.answersTo o.config o.output (Text.lines cs)⟩ := by
  have hproblem : o.problem? = .none := by rw [problem?, hconclusion, Option.map_none]
  have hproblems : problemsOf files name = .ok problems := by
    simp [problemsOf, hname, decodeText_eq_ok_iff.mpr rfl, hparse, Except.mapError]
  have hrun : o.run files input = o.answerFiles files "" [name] := by
    simp [run, hproblem, hfiles]
  rw [hrun, answerFiles, hproblems, Logged.value_bind, answerFiles, Logged.value_pure,
    value_answerAll, Problem.eq_filterMap_of_parseMany_eq_ok hparse, String.empty_append,
    Prompt.answersTo]

end CommandLine.Options

/-- **Answers.** Line by line, a report is printed for each problem on the lines of an input, up to
the first line that is not text, and that ends the answers with an error. The problems of a text are
read just if those on all of its lines can be; and then a file with the text is answered as the text
would be line by line. -/
theorem Prompt.answers_lines_as_files_do :
    (∀ (config : Config) (output : Output) (input : List UInt8), ∃ texts rest,
      Text.linesOf 13 10 input = texts.map Text.encode ++ rest ∧
      (∀ bytes ∈ rest.head?, ∀ cs, bytes ≠ Text.encode cs) ∧
      (run config output input).value =
        (answersTo config output texts, if rest.isEmpty then none else some .notText)) ∧
    ∀ cs : List Char,
      ((∃ problems, Problem.parseMany cs = .ok problems) ↔
        ∀ line ∈ Text.linesOf '\r' '\n' cs, Problem.isStated (Text.trim line) = true →
          ∃ p, Problem.parse (Text.trim line) = .ok p) ∧
      ∀ (problems : List Problem) (o : CommandLine.Options) (files : CommandLine.Files)
        (name : String) (input : List UInt8), Problem.parseMany cs = .ok problems →
        o.value? .conclusion = none → o.files = [name] → files name = .ok (Text.encode cs) →
        ∃ printed, (o.run files input).value = ⟨0, printed⟩ ∧
          (run o.config o.output (Text.encode cs)).value = (printed, none) := by
  refine ⟨fun config output input => ?_, fun cs => ⟨Problem.exists_parseMany_eq_ok_iff cs, ?_⟩⟩
  · exact value_answerLines config output (Text.forall₂_cutAfter_linesOf 13 10 input)
  · intro problems o files name input hparse hconclusion hfiles hname
    refine ⟨_, o.value_run_file hconclusion hfiles hname hparse input, ?_⟩
    rw [run, Text.cutAfter_encode]
    exact value_answerLines_encode o.config o.output (Text.lines cs)

/-- A carriage return, an empty line, a comment behind a blank, and no line feed at the end. -/
theorem Prompt.answers_lines_as_files_do_mixed :
    let cs := "A, A > B |- B\r\n\n\t# none\n ⊢ ¬(C ∧ ¬C)".toList
    let problems : List Problem := [⟨[.var "A", .imp (.var "A") (.var "B")], .var "B"⟩,
      ⟨[], .compound .and true (.var "C") (.atom "C" true none)⟩]
    let o : CommandLine.Options := ⟨[.symbolic], [], ["problems"]⟩
    let files : CommandLine.Files := fun _ => .ok (Text.encode cs)
    Problem.parseMany cs = .ok problems ∧ o.value? .conclusion = none ∧
      ∃ printed, (o.run files []).value = ⟨0, printed⟩ ∧
        (run o.config o.output (Text.encode cs)).value = (printed, none) := by
  intro cs problems o files
  have hparse : Problem.parseMany cs = .ok problems := by rfl
  exact ⟨hparse, rfl, (answers_lines_as_files_do.2 cs).2 problems o files "problems" [] hparse rfl
    rfl rfl⟩

end Turnstile
