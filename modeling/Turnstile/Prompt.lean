import Turnstile.Report

/-!
Answering problems line by line. A line that cannot be read as a problem is reported and passed
over; input that is not text ends the answers.
-/

namespace Turnstile

/-- Why bytes could not be read as text. -/
inductive ReadError where
  | notText
  deriving DecidableEq, Repr

def ReadError.message : ReadError → String
  | .notText => "stream did not contain valid UTF-8"

/-- The characters that bytes encode. -/
def decodeText (bytes : List UInt8) : Except ReadError (List Char) :=
  match String.fromUTF8? ⟨bytes.toArray⟩ with
  | some text => .ok text.toList
  | none => .error .notText

namespace Prompt

/-- What is printed for a problem. -/
def answer (config : Config) (output : Output) (p : Problem) : Logged String := do
  let (_, outcome) ← p.solve config
  return output.render outcome.report ++ "\n"

/-- What is printed for a line: nothing, unless it holds a problem. -/
def answerLine (config : Config) (output : Output) (line : List Char) : Logged String :=
  let line := Text.trim line
  if Problem.isStated line then
    match Problem.parse line with
    | .ok p => answer config output p
    | .error e => do
      Logged.report (.failed e.message)
      return ""
  else return ""

/-- What is printed for lines of bytes, up to the first that is not text. -/
def answerLines (config : Config) (output : Output) :
    List (List UInt8) → Logged (String × Option ReadError)
  | [] => return ("", none)
  | bytes :: rest =>
    match decodeText bytes with
    | .error e => return ("", some e)
    | .ok line => do
      let first ← answerLine config output line
      let (others, error?) ← answerLines config output rest
      return (first ++ others, error?)

/-- What is printed for a whole input. -/
def run (config : Config) (output : Output) (input : List UInt8) :
    Logged (String × Option ReadError) :=
  answerLines config output (Text.cutAfter 10 input)

end Prompt

end Turnstile
