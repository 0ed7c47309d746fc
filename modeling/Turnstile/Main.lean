import Turnstile.CommandLine

/-!
The executable: reads arguments, files and the standard input, and prints what the run gives.
-/

namespace Turnstile.CommandLine

/-- The size of an error number, which opening a file gives below zero and reading it above. -/
def errorNumber (code : UInt32) : UInt32 :=
  if code < 0x80000000 then code else 0 - code

/-- The bytes of a file, or why there are none. -/
def readFile (name : String) : IO (Except FileError (List UInt8)) := do
  try
    let bytes ← IO.FS.readBinFile name
    return .ok bytes.data.toList
  catch e =>
    match e with
    | .noFileOrDirectory .. => return .error .notFound
    | .permissionDenied .. => return .error .denied
    | .inappropriateType _ code _ =>
      return .error (if errorNumber code == 20 then .notDirectory else .isDirectory)
    | .invalidArgument _ code _ =>
      return .error (if errorNumber code == 36 then .nameTooLong else .other (toString e))
    | e => return .error (.other (toString e))

/-- Prints what was reported and what was answered. -/
def emit (printed : String) (events : Array Event) : IO Unit := do
  IO.eprint (errorStream events)
  IO.print printed
  (← IO.getStdout).flush

/-- The bytes of the next line, with its end if it has one; none when the input has run out. -/
partial def readLine (input : IO.FS.Stream) (before : Array UInt8) : IO (Array UInt8) := do
  let next ← input.read 1
  match next.data.toList with
  | [] => return before
  | byte :: _ =>
    if byte == 10 then return before.push byte else readLine input (before.push byte)

/-- Answers the standard input line by line. -/
partial def prompt (o : Options) : IO UInt32 := do
  let line ← readLine (← IO.getStdin) #[]
  if line.isEmpty then return 0
  match decodeText line.toList with
  | .error e =>
    emit "" #[.failed e.message]
    return 1
  | .ok text =>
    let answer := Prompt.answerLine o.config o.output text
    emit answer.value answer.events
    prompt o

end Turnstile.CommandLine

open Turnstile CommandLine in
def main (arguments : List String) : IO UInt32 := do
  match CommandLine.parse arguments with
  | .error stop =>
    if stop.exitCode == 0 then IO.println stop.message else IO.eprintln stop.message
    return stop.exitCode.toUInt32
  | .ok o =>
    if (o.value? .conclusion).isNone && o.files.isEmpty then
      IO.eprintln "[INFO ] Welcome to the Turnstile prompt!"
      prompt o
    else
      let names := if (o.value? .conclusion).isSome then [] else o.files
      let contents ← names.mapM fun name => return (name, ← readFile name)
      let files : Files := fun name => (contents.lookup name).getD (.error .notFound)
      let result := o.run files []
      emit result.value.printed result.events
      return result.value.code.toUInt32
