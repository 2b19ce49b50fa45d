import Stepwise.Proofs.CommandLine.Exits
import Stepwise.Proofs.Execution.Recording
import Stepwise.Proofs.Text.Decoding

/-! Invocations on one source text, by settings that agree. A run prints its trace once, on the way or
behind it; how it prints changes nothing else that becomes of it; and a run that is reviewed first goes
on just where a check of the same source has no objection. -/
namespace Stepwise.CommandLine

/- What an invocation comes to that carries out a task on a source text by some settings, with a log
from a level on at a path. -/
inductive Yields (task : Task) (settings : Settings) (text : String) (level : Level)
    (log : Option String) : Except Breakdown Outcome → Prop where
  | answered {s opened : Surroundings} {args : List String} {config : Option String} {input : String}
      (accepted : Invocation.ofArguments args = .ok ⟨⟨config, level, log⟩, task⟩)
      (opens : Opened s ⟨⟨config, level, log⟩, task⟩ opened)
      (loaded : Settings.load opened config = .ok settings)
      (asked : task.input? = some input) (read : inputText opened input = .ok text) :
      Yields task settings text level log (answer s args)

section
variable {s opened : Surroundings} {invocation : Invocation} {settings : Settings} {input text : String}
  {level : Level} {log : Option String} {result : Except Breakdown Outcome} {skip asJson : Bool}

theorem produceOpened (opens : Opened s invocation opened)
    (loaded : Settings.load opened invocation.preferences.config = .ok settings) :
    produce s invocation = perform opened settings invocation.task := by
  unfold Opened at opens
  unfold produce
  dsimp only
  cases asked : invocation.preferences.logPath? with
  | none =>
    rw [asked] at opens
    subst opens
    simp only [bind, Except.bind, loaded]
  | some path =>
    rw [asked] at opens
    simp only [bind, Except.bind, opens, loaded]

theorem withProgramRead {use : Program → Except Breakdown Product} (read : inputText s input = .ok text) :
    withProgram s input use = ofSource input use text := by
  unfold withProgram withInput
  rw [read]

theorem Yields.run (h : Yields (.run input skip asJson) settings text level log result) :
    result = (ofSource input (runTask settings skip asJson) text).map (settle ⟨none, level, log⟩) := by
  obtain ⟨accepted, opens, loaded, asked, read⟩ := h
  cases asked
  unfold answer
  rw [accepted]
  dsimp only
  rw [produceOpened opens loaded]
  exact congrArg _ (withProgramRead read)

theorem Yields.check (h : Yields (.check input) settings text level log result) :
    result = (ofSource input (checkTask settings) text).map (settle ⟨none, level, log⟩) := by
  obtain ⟨accepted, opens, loaded, asked, read⟩ := h
  cases asked
  unfold answer
  rw [accepted]
  dsimp only
  rw [produceOpened opens loaded]
  exact congrArg _ (withProgramRead read)

end

/- What an invocation comes to, apart from what it prints. -/
def Product.aside (r : Product) : Nat × List Note := (r.exit, r.notes)

def Outcome.aside (o : Outcome) : Nat × List Note × Option (String × List JournalEntry) :=
  (o.exit, o.notes, o.log)

/- Two answers alike, apart from what is printed. -/
def Alike (a b : Except Breakdown Product) : Prop := a.map Product.aside = b.map Product.aside

theorem Alike.cases {a b : Except Breakdown Product} (h : Alike a b) :
    (∃ broken, a = .error broken ∧ b = .error broken) ∨
      ∃ one other, a = .ok one ∧ b = .ok other ∧ one.aside = other.aside := by
  unfold Alike at h
  cases a with
  | error x =>
    cases b with
    | error y =>
      cases h
      exact .inl ⟨x, rfl, rfl⟩
    | ok r => cases h
  | ok r =>
    cases b with
    | error y => cases h
    | ok q => exact .inr ⟨r, q, rfl, rfl, Except.ok.inj h⟩

theorem Alike.settled {a b : Except Breakdown Product} (h : Alike a b) (preferences : Preferences) :
    (a.map (settle preferences)).map Outcome.aside =
      (b.map (settle preferences)).map Outcome.aside := by
  rcases h.cases with ⟨broken, rfl, rfl⟩ | ⟨one, other, rfl, rfl, same⟩
  · rfl
  · obtain ⟨exit, output, notes⟩ := one
    obtain ⟨exit', output', notes'⟩ := other
    cases same
    rfl

/- In words, the trace comes once in front of the results, whether the echo has printed it or not. -/
theorem wordsOutput (echoed : Bool) (x : Execution) :
    runOutput echoed false x = eventLines x.events ++ resultLines x.executor.tables := by
  cases echoed <;> simp [runOutput]

section
variable {settings quiet : Settings} {p : Program} {skip : Bool} {registry : Registry}
  {report : Report Finding} {input text : String} {ts : List Token}

theorem runQuiet (simulation : settings.simulation = quiet.simulation)
    (review : settings.review = quiet.review) :
    runTask settings skip false p = runTask quiet skip false p := by
  unfold runTask reviewFirst
  simp only [simulation, review, wordsOutput]

theorem runAlike (settings : Settings) (skip : Bool) (p : Program) :
    Alike (runTask settings skip false p) (runTask settings skip true p) := by
  unfold runTask
  cases settings.simulation.registry with
  | error fault => rfl
  | ok registry =>
    simp only [Except.mapError, bind, Except.bind]
    cases reviewFirst settings skip registry p with
    | error b => rfl
    | ok report =>
      dsimp only
      split
      · split <;> rfl
      · rfl

/- A source that is read goes into the log in front of what becomes of it. -/
def readEntry (input : String) (p : Program) : JournalEntry :=
  let workflows := p.workflows.length
  ⟨.debug, .commandLine, s!"Parsed {input}: {workflows} workflow(s)"⟩

theorem sourceRead {use : Program → Except Breakdown Product} {product : Product}
    (scanned : tokenize text = .ok ts) (parsed : parse ts = .ok p) (used : use p = .ok product) :
    ofSource input use text =
      .ok { product with notes := .logged (readEntry input p) :: product.notes } := by
  simp only [ofSource, scanned, parsed, used, bind, Except.bind]
  rfl

/- What is noted of a run that goes on to the execution. -/
def runNotes (report : Report Finding) (x : Execution) : List Note :=
  reportNotes report ++ x.journal.map .logged ++ (x.failure.map fun f => complain f.message).toList

/- A program of which nothing is missing is either refused by the review in front or executed, as
whatever stops it is reported. -/
theorem runReviewed (asJson : Bool) (supplied : p.Supplied) (made : settings.simulation.registry = .ok registry)
    (reviewed : reviewFirst settings skip registry p = .ok report) :
    let x := (Executor.fresh registry).execute p
    runTask settings skip asJson p = .ok (if report.isValid then
      ⟨if x.failure.isSome then 1 else 0, runOutput settings.execution.echoTrace.isSet asJson x,
        runNotes report x⟩
      else ⟨1, "", reportNotes report⟩) := by
  have reported := failureReported supplied (SimulationSettings.registrySucceeds made)
  simp only [runTask, made, Except.mapError, bind, Except.bind, reviewed, if_pos reported]
  split <;> rfl

end

/- A run goes on to the execution: the review in front has no error, or there is none. -/
def Executes (settings : Settings) (skip : Bool) (registry : Registry) (p : Program) : Prop :=
  ∃ report, reviewFirst settings skip registry p = .ok report ∧ report.isValid = true

section
variable {settings : Settings} {p : Program} {registry : Registry} {report : Report Finding}
  {input text : String} {ts : List Token} {level : Level} {log : Option String}
  {one other : Except Breakdown Outcome} {skip asJson : Bool}

/- A run that goes on to the execution prints what the execution has printed with the echo on, and
behind it the rest. -/
theorem runExecuted (scanned : tokenize text = .ok ts) (parsed : parse ts = .ok p)
    (made : settings.simulation.registry = .ok registry) (goes : Executes settings skip registry p)
    (ran : Yields (.run input skip asJson) settings text level log one) :
    ∃ outcome, one = .ok outcome ∧ outcome.output = runOutput settings.execution.echoTrace.isSet asJson
      ((Executor.fresh registry).execute p) := by
  have supplied := parseSupplied (tokenizeSpelled scanned) parsed
  obtain ⟨report, reviewed, valid⟩ := goes
  have used := runReviewed asJson supplied made reviewed
  rw [valid] at used
  refine ⟨_, ran.run.trans (congrArg _ (sourceRead scanned parsed used)), ?_⟩
  rfl

end

/- A machine whose input holds a workflow, and whose variables turn the echo on or off. -/
def pipedText : String := "workflow 'w' \x7b step 1: log('a') \x7d"

def pipedTokens : List Token :=
  [⟨.keyword .workflow, "workflow", none, 1⟩, ⟨.string, "'w'", some "w", 1⟩,
    ⟨.mark .leftBrace, "\x7b", none, 1⟩, ⟨.keyword .step, "step", none, 1⟩,
    ⟨.number, "1", some "1", 1⟩, ⟨.mark .colon, ":", none, 1⟩, ⟨.keyword .log, "log", none, 1⟩,
    ⟨.mark .leftParen, "(", none, 1⟩, ⟨.string, "'a'", some "a", 1⟩,
    ⟨.mark .rightParen, ")", none, 1⟩, ⟨.mark .rightBrace, "\x7d", none, 1⟩, .endAt 1]

def pipedProgram : Program :=
  ⟨[], [⟨"w", [.command 1 "log" [.text "a" (some 1)] (some 1) (some 1)], some 1⟩], some 1⟩

def piped (echo : String) : Surroundings :=
  ⟨fun _ => .missing, fun name => if name = "TRADEFLOW_ECHO_TRACE" then some echo else none, "/home",
    "/", Text.singleBytes pipedText.toList⟩

def echoing (echo : String) : Settings := Settings.ofVariables (piped echo)

theorem pipedScanned : tokenize pipedText = .ok pipedTokens := by cbv

theorem pipedParsed : parse pipedTokens = .ok pipedProgram := by rfl

/- The text is in ASCII, so that its characters are its bytes. -/
theorem pipedRead (echo : String) : inputText (piped echo) "-" = .ok pipedText := by
  have singles : ∀ c ∈ pipedText.toList, Text.Single c := by simp [pipedText, Text.Single]
  change (Text.decode (Text.singleBytes pipedText.toList)).mapError ReadingFault.decoding = _
  rw [Text.decodeSingle singles, String.ofList_toList]
  rfl

theorem echoingOn : (echoing "1").execution.echoTrace.isSet = true := by
  have lower : "1".toLower = "1" := by
    change "1".map Char.toLower = "1"
    exact String.toList_inj.mp (by simp)
  have on : (echoing "1").execution = ⟨.bool true⟩ := by
    simp [echoing, Settings.ofVariables, Settings.flag, piped, lower, Settings.onWords]
  rw [on]
  rfl

end Stepwise.CommandLine
