import Turnstile.Folder
import Turnstile.Prompt

/-!
The command line: its options, and what a run prints. One problem can be given by options; else
problems come from files, or line by line from the input.
-/

namespace Turnstile.CommandLine

/-- Options that stand alone. -/
inductive Flag where
  | json | symbolic | naive | help | version
  deriving DecidableEq, Repr

/-- Options that take a value. -/
inductive Setting where
  | hypotheses | conclusion | maxFacts | maxPasses
  deriving DecidableEq, Repr

namespace Flag

def name : Flag → String
  | .json => "json"
  | .symbolic => "symbolic"
  | .naive => "naive"
  | .help => "help"
  | .version => "version"

def letter? : Flag → Option Char
  | .help => some 'h'
  | .version => some 'V'
  | _ => none

def all : List Flag := [.json, .symbolic, .naive, .help, .version]

end Flag

namespace Setting

def name : Setting → String
  | .hypotheses => "hypotheses"
  | .conclusion => "conclusion"
  | .maxFacts => "max-facts"
  | .maxPasses => "max-passes"

def letter? : Setting → Option Char
  | .hypotheses => some 'H'
  | .conclusion => some 'c'
  | _ => none

def all : List Setting := [.hypotheses, .conclusion, .maxFacts, .maxPasses]

end Setting

/-- Why the arguments give nothing to run. -/
inductive Stop where
  | help
  | version
  | unknownOption (argument : String)
  | missingValue (setting : Setting)
  | unwantedValue (flag : Flag)
  | repeatedFlag (flag : Flag)
  | repeatedSetting (setting : Setting)
  | badNumber (setting : Setting) (value : String)
  | emptyFileName
  | conclusionMissing
  | outputConflict
  deriving DecidableEq, Repr

structure Options where
  flags : List Flag
  settings : List (Setting × String)
  files : List String
  deriving DecidableEq, Repr

/-- A decimal number below `2 ^ 64`. A plus sign may stand before it. -/
def parseNumber? (value : String) : Option Nat :=
  let digits := match value.toList with
    | '+' :: rest => rest
    | cs => cs
  if digits.isEmpty || !digits.all Char.isDigit then none
  else
    let n := digits.foldl (fun n c => 10 * n + (c.toNat - '0'.toNat)) 0
    if n < Nat.pow 2 64 then some n else none

namespace Setting

/-- Whether a value can be read. Formulas are read later. -/
def accepts : Setting → String → Bool
  | .hypotheses, _ | .conclusion, _ => true
  | .maxFacts, value | .maxPasses, value => (parseNumber? value).isSome

end Setting

namespace Options

def none : Options := ⟨[], [], []⟩

def value? (o : Options) (setting : Setting) : Option String := o.settings.lookup setting

def number? (o : Options) (setting : Setting) : Option Nat := (o.value? setting).bind parseNumber?

def config (o : Options) : Config where
  maxFacts := (o.number? .maxFacts).getD Config.standard.maxFacts
  maxPasses := (o.number? .maxPasses).getD Config.standard.maxPasses
  seminaive := !o.flags.contains .naive

def output (o : Options) : Output :=
  if o.flags.contains .json then .json
  else if o.flags.contains .symbolic then .symbolic
  else .both

def addFlag (o : Options) (flag : Flag) : Except Stop Options :=
  match flag with
  | .help => .error .help
  | .version => .error .version
  | _ =>
    if o.flags.contains flag then .error (.repeatedFlag flag)
    else .ok { o with flags := o.flags ++ [flag] }

def addSetting (o : Options) (setting : Setting) (value : String) : Except Stop Options :=
  if !setting.accepts value then .error (.badNumber setting value)
  else if (o.value? setting).isSome then .error (.repeatedSetting setting)
  else .ok { o with settings := o.settings ++ [(setting, value)] }

def addFile (o : Options) (name : String) : Except Stop Options :=
  if name.isEmpty then .error .emptyFileName else .ok { o with files := o.files ++ [name] }

/-- What the options ask of each other: hypotheses need a conclusion, and there is one output. -/
def check (o : Options) : Except Stop Options :=
  if (o.value? .hypotheses).isSome && (o.value? .conclusion).isNone then .error .conclusionMissing
  else if o.flags.contains .json && o.flags.contains .symbolic then .error .outputConflict
  else .ok o

end Options

/-- One argument by itself. -/
inductive Argument where
  /-- All that follow are file names. -/
  | separator
  | file (name : String)
  | switch (flag : Flag)
  /-- The value is attached, or else it is the next argument. -/
  | option (setting : Setting) (attached : Option String)
  | bad (stop : Stop)
  deriving DecidableEq, Repr

namespace Argument

/-- An option by its name, with what follows an equals sign. -/
def ofName (argument : String) (name : List Char) (attached : Option (List Char)) : Argument :=
  match Flag.all.find? (fun flag => flag.name.toList == name), attached with
  | some flag, .none => .switch flag
  | some flag, some _ => .bad (.unwantedValue flag)
  | .none, _ =>
    match Setting.all.find? fun setting => setting.name.toList == name with
    | some setting => .option setting (attached.map String.ofList)
    | .none => .bad (.unknownOption argument)

/-- An option by its letter, with what follows it. An equals sign before a value is left out. -/
def ofLetter (argument : String) (letter : Char) (rest : List Char) : Argument :=
  match Setting.all.find? fun setting => setting.letter? == some letter with
  | some setting =>
    match rest with
    | [] => .option setting .none
    | '=' :: value => .option setting (some (String.ofList value))
    | value => .option setting (some (String.ofList value))
  | .none =>
    match Flag.all.find? fun flag => flag.letter? == some letter with
    | some flag => .switch flag
    | .none => .bad (.unknownOption argument)

def ofString (argument : String) : Argument :=
  match argument.toList with
  | ['-', '-'] => .separator
  | '-' :: '-' :: rest =>
    match Text.splitOnce? ['='] rest with
    | some (name, value) => ofName argument name (some value)
    | .none => ofName argument rest .none
  | '-' :: letter :: rest => ofLetter argument letter rest
  | _ => .file argument

/-- Whether an argument can be the value of the option before it: it has no dash in front, or is a
dash alone. -/
def isValue (argument : String) : Bool :=
  match argument.toList with
  | ['-'] => true
  | '-' :: _ => false
  | _ => true

end Argument

/-- Goes through the arguments from left to right. -/
def readArguments (o : Options) : List String → Except Stop Options
  | [] => .ok o
  | argument :: rest =>
    match Argument.ofString argument with
    | .separator => rest.foldlM Options.addFile o
    | .file name => do readArguments (← o.addFile name) rest
    | .switch flag => do readArguments (← o.addFlag flag) rest
    | .option setting (some value) => do readArguments (← o.addSetting setting value) rest
    | .option setting .none =>
      match rest with
      | [] => .error (.missingValue setting)
      | value :: rest =>
        if Argument.isValue value then do readArguments (← o.addSetting setting value) rest
        else .error (.missingValue setting)
    | .bad stop => .error stop

def parse (arguments : List String) : Except Stop Options := do
  (← readArguments .none arguments).check

namespace Stop

def message : Stop → String
  | .help =>
    "Usage: turnstile [--hypotheses <LIST>] [--conclusion <FORMULA>] [--json | --symbolic] " ++
      "[--max-facts <N>] [--max-passes <N>] [--naive] [FILE]..."
  | .version => "turnstile 0.1.0"
  | .unknownOption argument => "error: unexpected argument " ++ argument
  | .missingValue setting => "error: a value is required for --" ++ setting.name
  | .unwantedValue flag => "error: no value is allowed for --" ++ flag.name
  | .repeatedFlag flag => "error: --" ++ flag.name ++ " cannot be used more than once"
  | .repeatedSetting setting => "error: --" ++ setting.name ++ " cannot be used more than once"
  | .badNumber setting value => "error: invalid value " ++ value ++ " for --" ++ setting.name
  | .emptyFileName => "error: a file name is empty"
  | .conclusionMissing => "error: --hypotheses needs --conclusion"
  | .outputConflict => "error: --json cannot be used with --symbolic"

def exitCode : Stop → Nat
  | .help | .version => 0
  | _ => 2

end Stop

/-- The bytes of a file, by its name. -/
abbrev Files := String → Except FileError (List UInt8)

/-- What a run leaves: the exit code and what was printed. -/
structure Result where
  code : Nat
  printed : String
  deriving DecidableEq, Repr

namespace Result

/-- Failure with a message, after what was printed before. -/
def failure (printed message : String) : Logged Result := do
  Logged.report (.failed message)
  return ⟨1, printed⟩

end Result

namespace Options

/-- The problem given by options, if a conclusion is. -/
def problem? (o : Options) : Option (Except ParseError Problem) :=
  (o.value? .conclusion).map fun conclusion => do
    let hypotheses ← match o.value? .hypotheses with
      | some text => parseHypotheses text
      | .none => pure []
    return ⟨hypotheses, ← parseFormula conclusion⟩

/-- The problems in a file. -/
def problemsOf (files : Files) (name : String) : Except String (List Problem) :=
  match files name with
  | .error e => .error ("IO error: " ++ name ++ ": " ++ e.message)
  | .ok bytes =>
    match decodeText bytes with
    | .error e => .error ("IO error: " ++ name ++ ": " ++ e.message)
    | .ok text => (Problem.parseMany text).mapError ProblemError.message

/-- Answers problems: all are solved first, then each is reported and its answer printed. -/
def answerAll (o : Options) (problems : List Problem) : Logged String := do
  let answers ← problems.mapM fun p => Prompt.answer o.config o.output p
  problems.forM fun p => Logged.report (.answered p)
  return String.join answers

/-- Answers files in turn, up to the first that cannot be read. -/
def answerFiles (o : Options) (files : Files) (printed : String) : List String → Logged Result
  | [] => return ⟨0, printed⟩
  | name :: rest =>
    match problemsOf files name with
    | .error message => Result.failure printed message
    | .ok problems => do
      let answers ← o.answerAll problems
      o.answerFiles files (printed ++ answers) rest

/-- A whole run. -/
def run (o : Options) (files : Files) (input : List UInt8) : Logged Result :=
  match o.problem? with
  | some (.error e) => Result.failure "" e.message
  | some (.ok p) => do return ⟨0, ← Prompt.answer o.config o.output p⟩
  | .none =>
    if o.files.isEmpty then do
      let (printed, error?) ← Prompt.run o.config o.output input
      match error? with
      | .none => return ⟨0, printed⟩
      | some e => Result.failure printed e.message
    else o.answerFiles files "" o.files

end Options

/-- The lines for the error stream: all events but the details. -/
def errorStream (events : Array Event) : String :=
  String.join ((events.toList.filter fun e => !e.level.isDetail).map Event.consoleLine)

end Turnstile.CommandLine
