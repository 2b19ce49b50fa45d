import Stepwise.CommandLine.Options
import Stepwise.Journal

/-! What the command line asks for: an invocation, a help text, or a complaint about its use. -/
namespace Stepwise.CommandLine

inductive Task where
  | run (input : String) (skipReview asJson : Bool)
  | check (input : String)
  | tokens (input : String)
  | describe (input : String)
  | commands
  deriving DecidableEq, Repr

def Task.input? : Task → Option String
  | .run input _ _ | .check input | .tokens input | .describe input => some input
  | .commands => none

structure Preferences where
  config : Option String
  logLevel : Level
  logFile : Option String
  deriving DecidableEq, Repr

/-- The path of the log; an empty one counts as none. -/
def Preferences.logPath? (p : Preferences) : Option String := p.logFile.filter (· ≠ "")

structure Invocation where
  preferences : Preferences
  task : Task
  deriving DecidableEq, Repr

inductive Stop where
  | help (text : String)
  | misuse (text : String)
  deriving DecidableEq, Repr

structure Manual where
  name : String
  usage : String
  details : String

def Manual.help (m : Manual) : Stop := .help (m.usage ++ "\n" ++ m.details)

def Manual.misuse (m : Manual) (complaint : String) : Stop :=
  .misuse (m.usage ++ m.name ++ ": error: " ++ complaint ++ "\n")

def Manual.argument (m : Manual) (label complaint : String) : Stop :=
  m.misuse s!"argument {label}: {complaint}"

def taskNames : List String := ["run", "check", "tokens", "describe", "commands"]

def mainManual : Manual where
  name := "tradeflow"
  usage :=
    "usage: tradeflow [-h] [--config FILE] [--log-level \x7bDEBUG,INFO,WARNING,ERROR\x7d]\n" ++
    "                 [--log-file FILE]\n" ++
    "                 \x7brun,check,tokens,describe,commands\x7d ...\n"
  details :=
    "TradeFlow workflow language interpreter\n\n" ++
    "positional arguments:\n" ++
    "  \x7brun,check,tokens,describe,commands\x7d\n" ++
    "    run                 Parse and execute a workflow file\n" ++
    "    check               Tokenize, parse and validate only\n" ++
    "    tokens              Print the token stream\n" ++
    "    describe            Print a human-readable step outline\n" ++
    "    commands            List the available commands\n\n" ++
    "options:\n" ++
    "  -h, --help            show this help message and exit\n" ++
    "  --config FILE         Path to TradeFlow config file (JSON). Defaults to\n" ++
    "                        tradeflow.config.json in cwd, ~/.tradeflow/, or\n" ++
    "                        /etc/tradeflow/\n" ++
    "  --log-level \x7bDEBUG,INFO,WARNING,ERROR\x7d\n" ++
    "                        Log level (default: WARNING)\n" ++
    "  --log-file FILE       Log to file instead of stderr\n"

def runManual : Manual where
  name := "tradeflow run"
  usage := "usage: tradeflow run [-h] [--no-validate] [--json] input\n"
  details :=
    "positional arguments:\n" ++
    "  input          TradeFlow source file ('-' reads stdin)\n\n" ++
    "options:\n" ++
    "  -h, --help     show this help message and exit\n" ++
    "  --no-validate  Skip static validation before execution\n" ++
    "  --json         Print the trace and step results as JSON\n"

def inputManual (task : String) : Manual where
  name := "tradeflow " ++ task
  usage := "usage: tradeflow " ++ task ++ " [-h] input\n"
  details :=
    "positional arguments:\n" ++
    "  input       TradeFlow source file ('-' reads stdin)\n\n" ++
    "options:\n" ++
    "  -h, --help  show this help message and exit\n"

def commandsManual : Manual where
  name := "tradeflow commands"
  usage := "usage: tradeflow commands [-h]\n"
  details := "options:\n  -h, --help  show this help message and exit\n"

inductive TaskOption where
  | help | skipReview | asJson
  deriving DecidableEq, Repr

def TaskOption.label : TaskOption → String
  | .help => "-h/--help"
  | .skipReview => "--no-validate"
  | .asJson => "--json"

def helpOptions : List (String × TaskOption) := [("-h", .help), ("--help", .help)]

def runOptions : List (String × TaskOption) :=
  helpOptions ++ [("--no-validate", .skipReview), ("--json", .asJson)]

structure TaskState where
  input : Option String
  skipReview : Bool
  asJson : Bool
  extra : List String

/-- Reads the arguments of a task, which takes one input or none. A `--` beside the input belongs to
it. -/
def readTask (m : Manual) (takesInput : Bool) (s : TaskState) :
    List (String × Piece TaskOption) → Except Stop TaskState
  | [] => .ok s
  | (arg, .value) :: rest =>
      if takesInput ∧ s.input = none then
        match rest with
        | (_, .dashes) :: rest => readTask m takesInput { s with input := some arg } rest
        | rest => readTask m takesInput { s with input := some arg } rest
      else readTask m takesInput { s with extra := s.extra ++ [arg] } rest
  | (arg, .dashes) :: rest =>
      if takesInput ∧ s.input = none ∧ !rest.isEmpty then readTask m takesInput s rest
      else readTask m takesInput { s with extra := s.extra ++ [arg] } rest
  | (arg, .unknown) :: rest => readTask m takesInput { s with extra := s.extra ++ [arg] } rest
  | (_, .known spelling option tied) :: rest =>
      match tiedToNothing? spelling tied with
      | some complaint => .error (m.argument option.label complaint)
      | none =>
          match option with
          | .help => .error m.help
          | .skipReview => readTask m takesInput { s with skipReview := true } rest
          | .asJson => readTask m takesInput { s with asJson := true } rest

def taskState (m : Manual) (options : List (String × TaskOption)) (takesInput : Bool)
    (args : List String) : Except Stop TaskState := do
  let pieces ← (classifyAll options args).mapError m.misuse
  let s ← readTask m takesInput ⟨none, false, false, []⟩ pieces
  if takesInput ∧ s.input = none then
    .error (m.misuse "the following arguments are required: input")
  else return s

def taskOf (name : String) (args : List String) : Except Stop (Task × List String) := do
  if name = "run" then
    let s ← taskState runManual runOptions true args
    return (.run (s.input.getD "") s.skipReview s.asJson, s.extra)
  else if name = "commands" then
    let s ← taskState commandsManual helpOptions false args
    return (.commands, s.extra)
  else
    let s ← taskState (inputManual name) helpOptions true args
    let input := s.input.getD ""
    return (if name = "check" then .check input
      else if name = "tokens" then .tokens input else .describe input, s.extra)

inductive MainOption where
  | help | config | logLevel | logFile
  deriving DecidableEq, Repr

def MainOption.label : MainOption → String
  | .help => "-h/--help"
  | .config => "--config"
  | .logLevel => "--log-level"
  | .logFile => "--log-file"

def mainOptions : List (String × MainOption) :=
  [("-h", .help), ("--help", .help), ("--config", .config), ("--log-level", .logLevel),
    ("--log-file", .logFile)]

def invalidChoice (value : String) (choices : List String) : String :=
  let shown := Text.quoted value
  let allowed := ", ".intercalate (choices.map Text.quoted)
  s!"invalid choice: {shown} (choose from {allowed})"

def setOption (p : Preferences) (option : MainOption) (value : String) :
    Except Stop Preferences :=
  match option with
  | .help => .ok p
  | .config => .ok { p with config := some value }
  | .logFile => .ok { p with logFile := some value }
  | .logLevel =>
      match Level.ofLabel? value with
      | some level => .ok { p with logLevel := level }
      | none =>
          .error (mainManual.argument option.label
            (invalidChoice value (Level.all.map Level.label)))

def readMain (p : Preferences) (extra : List String) :
    List (String × Piece MainOption) → Except Stop (Invocation × List String)
  | [] => .error (mainManual.misuse "the following arguments are required: command")
  | (arg, .unknown) :: rest => readMain p (extra ++ [arg]) rest
  | (arg, .value) :: rest =>
      if arg ∈ taskNames then do
        let (task, more) ← taskOf arg (rest.map Prod.fst)
        return (⟨p, task⟩, extra ++ more)
      else .error (mainManual.argument "command" (invalidChoice arg taskNames))
  | (arg, .dashes) :: rest =>
      if rest.isEmpty then readMain p (extra ++ [arg]) rest
      else .error (mainManual.argument "command" (invalidChoice arg taskNames))
  | (_, .known spelling option tied) :: rest =>
      match option, tied with
      | .help, tied =>
          match tiedToNothing? spelling tied with
          | some complaint => .error (mainManual.argument option.label complaint)
          | none => .error mainManual.help
      | option, some tied => do
          let p ← setOption p option tied
          readMain p extra rest
      | option, none =>
          match rest with
          | (arg, .value) :: rest => do
              let p ← setOption p option arg
              readMain p extra rest
          | _ => .error (mainManual.argument option.label "expected one argument")

def Invocation.ofArguments (args : List String) : Except Stop Invocation := do
  let pieces ← (classifyAll mainOptions args).mapError mainManual.misuse
  let (invocation, extra) ← readMain ⟨none, .warning, none⟩ [] pieces
  if extra.isEmpty then return invocation
  else
    let all := " ".intercalate extra
    .error (mainManual.misuse s!"unrecognized arguments: {all}")

end Stepwise.CommandLine
