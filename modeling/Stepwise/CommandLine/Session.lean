import Stepwise.CommandLine.Invocation
import Stepwise.Document
import Stepwise.Program.Assembly
import Stepwise.Program.Outline
import Stepwise.Review
import Stepwise.Settings.Loading
import Stepwise.Token.Lexer

/-! One invocation, carried out in given surroundings. -/
namespace Stepwise.CommandLine

/-- A part of what goes to the error output: text, or a record that awaits its time. -/
inductive Note where
  | said (text : String)
  | logged (entry : JournalEntry)
  deriving DecidableEq, Repr

def logLine (time : String) (e : JournalEntry) : String :=
  let level := e.level.label
  let origin := e.origin.label
  s!"{time} {level} [{origin}] {e.message}\n"

/-- What an invocation comes to. Records go to the log file, if there is one, and else among the
notes. -/
structure Outcome where
  exit : Nat
  output : String
  notes : List Note
  log : Option (String × List JournalEntry)
  deriving DecidableEq, Repr

/-- Faults for which there is no answer, so that they end the program. -/
inductive Breakdown where
  | logFile (fault : FileFault) (path : String)
  | settings (fault : SettingsFault)
  | reading (fault : ReadingFault)
  | number (fault : ParseFault)
  | run (failure : Failure)

def Breakdown.message : Breakdown → String
  | .logFile fault path => fault.message path
  | .settings fault => fault.message
  | .reading fault => fault.message
  | .number fault => fault.message
  | .run failure => failure.message

structure Product where
  exit : Nat
  output : String
  notes : List Note

def complain (text : String) : Note := .said ("Error: " ++ text ++ "\n")

def Product.refused (text : String) : Product := ⟨1, "", [complain text]⟩

def reportNotes (report : Report Finding) : List Note :=
  report.warnings.map (fun f => .said ("Warning: " ++ f.remark.shown ++ "\n")) ++
    report.errors.map fun f => complain f.remark.shown

def resultLine (id : Int) (r : StepResult) : String :=
  let success := r.get (some "success")
  let data := Text.quoted r.data
  let message := Text.quoted r.message
  s!"  Step {id}: success={success} status={r.status} data={data} message={message}\n"

def resultLines (t : Tables) : String :=
  "\nStep results:\n" ++ String.join (t.results.entries.map fun e => resultLine e.1 e.2)

def reviewFirst (settings : Settings) (skip : Bool) (registry : Registry) (p : Program) :
    Except Breakdown (Report Finding) :=
  if settings.review.enabled.isSet ∧ ¬ skip then
    match p.reviewUnder? settings.review registry with
    | some report => .ok report
    | none => .error (.run .absentContent)
  else .ok .empty

/-- What a run prints: with the echo on, its trace as it comes about, whatever follows. -/
def runOutput (echoed asJson : Bool) (x : Execution) : String :=
  let lines := eventLines x.events
  (if echoed then lines else "") ++
    if asJson then x.document.document ++ "\n"
    else (if echoed then "" else lines) ++ resultLines x.executor.tables

def runTask (settings : Settings) (skip asJson : Bool) (p : Program) :
    Except Breakdown Product := do
  let registry ← settings.simulation.registry.mapError .settings
  let report ← reviewFirst settings skip registry p
  if report.isValid then
    let x := (Executor.fresh registry).execute p
    let reported := x.failure.all Failure.isReported
    if reported then
      return ⟨if x.failure.isSome then 1 else 0,
        runOutput settings.execution.echoTrace.isSet asJson x,
        reportNotes report ++ x.journal.map .logged ++
          (x.failure.map fun f => complain f.message).toList⟩
    else .error (.run (x.failure.getD .absentContent))
  else return ⟨1, "", reportNotes report⟩

def checkTask (settings : Settings) (p : Program) : Except Breakdown Product := do
  let registry ← settings.simulation.registry.mapError .settings
  match p.reviewUnder? settings.review registry with
  | none => .error (.run .absentContent)
  | some report =>
      if report.isValid then
        let workflows := p.workflows.length
        let steps := p.walk.length
        return ⟨0, "", reportNotes report ++
          [.said s!"OK: {workflows} workflow(s), {steps} step(s)\n"]⟩
      else return ⟨1, "", reportNotes report⟩

def describeTask (p : Program) : Product :=
  let describe (w : Workflow) : String :=
    "Workflow: " ++ w.name ++ "\n" ++
      String.join ((w.outline?.getD []).map fun line => "  " ++ line ++ "\n")
  ⟨0, String.join (p.workflows.map describe), []⟩

def tokensText (ts : List Token) : String := String.join (ts.map fun t => t.shown ++ "\n")

def inputText (s : Surroundings) (input : String) : Except ReadingFault String :=
  if input = "-" then (Text.decode s.input).mapError .decoding else s.read input

def withInput (s : Surroundings) (input : String) (use : String → Except Breakdown Product) :
    Except Breakdown Product :=
  match inputText s input with
  | .ok text => use text
  | .error (.file .missing _) => .ok (.refused ("File not found: " ++ input))
  | .error (.file fault path) =>
      .ok ⟨1, "", [.said ("Error reading input: " ++ fault.message path ++ "\n")]⟩
  | .error fault => .error (.reading fault)

def ofSource (input : String) (use : Program → Except Breakdown Product) (text : String) :
    Except Breakdown Product :=
  match tokenize text with
  | .error fault => .ok (.refused fault.message)
  | .ok ts =>
      match parse ts with
      | .error fault =>
          if fault.cause.isNumeric then .error (.number fault) else .ok (.refused fault.message)
      | .ok p => do
          let product ← use p
          let workflows := p.workflows.length
          let entry : JournalEntry :=
            ⟨.debug, .commandLine, s!"Parsed {input}: {workflows} workflow(s)"⟩
          return { product with notes := .logged entry :: product.notes }

def withProgram (s : Surroundings) (input : String) (use : Program → Except Breakdown Product) :
    Except Breakdown Product :=
  withInput s input (ofSource input use)

def perform (s : Surroundings) (settings : Settings) : Task → Except Breakdown Product
  | .commands => do
      let registry ← settings.simulation.registry.mapError .settings
      return ⟨0, String.join (registry.names.map fun name => name ++ "\n"), []⟩
  | .tokens input => withInput s input fun text =>
      match tokenize text with
      | .error fault => .ok (.refused fault.message)
      | .ok ts => .ok ⟨0, tokensText ts, []⟩
  | .check input => withProgram s input (checkTask settings)
  | .describe input => withProgram s input fun p => .ok (describeTask p)
  | .run input skip asJson => withProgram s input (runTask settings skip asJson)

/-- Opens the log, to write behind what is at its path. What follows finds a file there. -/
def openLog (s : Surroundings) (path : String) : Except Breakdown Surroundings :=
  let full := Path.absolute s.current path
  match s.look full with
  | .file _ => .ok s
  | .directory => .error (.logFile .directory full)
  | .throughFile => .error (.logFile .throughFile full)
  | .tooLong => .error (.logFile .tooLong full)
  | .unnameable => .error (.reading .unnameable)
  | .missing =>
      match s.look (Path.parent full) with
      | .directory => .ok (s.touched full)
      | _ => .error (.logFile .missing full)

def settle (p : Preferences) (product : Product) : Outcome :=
  let wanted (e : JournalEntry) : Bool := p.logLevel.rank ≤ e.level.rank
  let logFile := p.logPath?
  let entries := product.notes.filterMap fun
    | .logged e => if wanted e then some e else none
    | .said _ => none
  let shown := product.notes.filter fun
    | .logged e => wanted e && logFile.isNone
    | .said _ => true
  ⟨product.exit, product.output, shown, logFile.map fun path => (path, entries)⟩

def produce (s : Surroundings) (invocation : Invocation) : Except Breakdown Product := do
  let preferences := invocation.preferences
  let s ← match preferences.logPath? with
    | some path => openLog s path
    | none => .ok s
  match Settings.load s preferences.config with
  | .error (.settings fault) => .error (.settings fault)
  | .error fault => return .refused ("Cannot load config: " ++ fault.message)
  | .ok settings => perform s settings invocation.task

def Invocation.paths (s : Surroundings) (invocation : Invocation) : List String :=
  let preferences := invocation.preferences
  let read := Settings.candidates s preferences.config ++ invocation.task.input?.toList
  let written := preferences.logPath?.toList.map (Path.absolute s.current)
  (read ++ written).flatMap fun path =>
    (path :: Path.beginnings path).flatMap fun place => [place, Path.parent place]

def answer (s : Surroundings) (args : List String) : Except Breakdown Outcome :=
  match Invocation.ofArguments args with
  | .error (.help text) => .ok ⟨0, text, [], none⟩
  | .error (.misuse text) => .ok ⟨2, "", [.said text], none⟩
  | .ok invocation => (produce s invocation).map (settle invocation.preferences)

end Stepwise.CommandLine
