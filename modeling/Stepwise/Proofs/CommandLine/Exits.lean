import Stepwise.CommandLine.Session
import Stepwise.Proofs.Grammar.Faults
import Stepwise.Proofs.Settings.Shape

/-! What an invocation comes to. It ends with exit 0, or with exit 1 and something said about it; what
else there is comes of the log, of the shape of the settings file, or of a source that holds no text or
too long a step number. -/
namespace Stepwise

theorem EvalError.Spelled.reported {e : EvalError} (h : e.Spelled) : e.isReported = true := by
  cases h <;> rfl

theorem Program.reviewSupplied {p : Program} (supplied : p.Supplied) (settings : ReviewSettings)
    (registry : Registry) : ∃ report, p.reviewUnder? settings registry = some report := by
  have whole : (p.walk.any fun found => found.2.isAbsent) = false :=
    List.any_eq_false.mpr fun entry inside => by simp [(supplied.steps entry inside).content]
  unfold reviewUnder? review?
  rw [if_neg (by simp [whole])]
  exact ⟨_, rfl⟩

namespace CommandLine

/- Exit 0, or exit 1 with something said. -/
def Exits (exit : Nat) (notes : List Note) : Prop :=
  exit = 0 ∨ exit = 1 ∧ ∃ text, text ≠ "" ∧ .said text ∈ notes

theorem complaintSpoken (text : String) : ∃ said, said ≠ "" ∧ complain text = .said said := by
  refine ⟨"Error: " ++ text ++ "\n", ?_, rfl⟩
  simp

theorem Exits.complained {notes : List Note} {text : String} (inside : complain text ∈ notes) :
    Exits 1 notes := by
  obtain ⟨said, some, same⟩ := complaintSpoken text
  exact .inr ⟨rfl, said, some, same ▸ inside⟩

theorem Exits.refused (text : String) : Exits (Product.refused text).exit (Product.refused text).notes :=
  .complained (List.mem_singleton_self _)

theorem Exits.behind {exit : Nat} {notes : List Note} (h : Exits exit notes) (note : Note) :
    Exits exit (note :: notes) := by
  rcases h with done | ⟨failed, text, some, inside⟩
  · exact .inl done
  · exact .inr ⟨failed, text, some, List.mem_cons_of_mem _ inside⟩

/- An invalid report complains. -/
theorem reportComplains {report : Report Finding} (h : report.isValid = false) :
    Exits 1 (reportNotes report) := by
  cases errors : report.errors with
  | nil => simp [Report.isValid, errors] at h
  | cons f rest =>
    have among : f ∈ report.errors := errors ▸ List.mem_cons_self
    have inside : complain f.remark.shown ∈ reportNotes report :=
      List.mem_append_right _ (List.mem_map_of_mem among)
    exact .complained inside

/- What a task comes to, where certain things may break it down. -/
def Ends (broken : Breakdown → Prop) : Except Breakdown Product → Prop
  | .ok product => Exits product.exit product.notes
  | .error b => broken b

theorem Ends.mono {broken other : Breakdown → Prop} {r : Except Breakdown Product}
    (weaker : ∀ b, broken b → other b) (h : Ends broken r) : Ends other r := by
  cases r with
  | ok product => exact h
  | error b => exact weaker b h

/- The commands that settings disable cannot be looked up. -/
def Nameless (settings : Settings) (b : Breakdown) : Prop :=
  ∃ fault, settings.simulation.registry = .error fault ∧ b = .settings fault

section
variable {settings : Settings} {p : Program}

/- A task that begins by taking the commands from the settings. -/
theorem commandsEnd {use : Registry → Except Breakdown Product}
    (each : ∀ registry, settings.simulation.registry = .ok registry →
      Ends (Nameless settings) (use registry)) :
    Ends (Nameless settings) (settings.simulation.registry.mapError .settings >>= use) := by
  cases made : settings.simulation.registry with
  | error fault => exact ⟨fault, made, rfl⟩
  | ok registry => exact each registry made

theorem checkEnds (supplied : p.Supplied) : Ends (Nameless settings) (checkTask settings p) := by
  refine commandsEnd fun registry _ => ?_
  obtain ⟨report, reviewed⟩ := p.reviewSupplied supplied settings.review registry
  rw [reviewed]
  dsimp only
  by_cases valid : report.isValid = true
  · rw [if_pos valid]
    exact .inl rfl
  · rw [if_neg valid]
    exact reportComplains (Bool.not_eq_true _ ▸ valid)

theorem reviewedFirst (supplied : p.Supplied) (settings : Settings) (skip : Bool)
    (registry : Registry) :
    ∃ report, reviewFirst settings skip registry p = .ok report := by
  obtain ⟨report, reviewed⟩ := p.reviewSupplied supplied settings.review registry
  unfold reviewFirst
  split
  · rw [reviewed]
    exact ⟨report, rfl⟩
  · exact ⟨.empty, rfl⟩

/- Whatever a run fails over is reported. -/
theorem failureReported (supplied : p.Supplied) {registry : Registry} (succeeds : registry.Succeeds) :
    ((Executor.fresh registry).execute p).failure.all Failure.isReported = true := by
  cases failed : ((Executor.fresh registry).execute p).failure with
  | none => rfl
  | some f =>
    obtain ⟨e, rfl, spelled⟩ := Program.runFails succeeds supplied failed
    exact spelled.reported

theorem runEnds (supplied : p.Supplied) (skip asJson : Bool) :
    Ends (Nameless settings) (runTask settings skip asJson p) := by
  refine commandsEnd fun registry made => ?_
  obtain ⟨report, reviewed⟩ := reviewedFirst supplied settings skip registry
  have reported := failureReported supplied (SimulationSettings.registrySucceeds made)
  rw [reviewed]
  change Ends _ (if report.isValid = true then _ else _)
  by_cases valid : report.isValid = true
  · rw [if_pos valid, if_pos reported]
    cases failed : ((Executor.fresh registry).execute p).failure with
    | none => exact .inl rfl
    | some f =>
      have last : complain f.message ∈ [complain f.message] := List.mem_singleton_self _
      exact .complained (List.mem_append_right _ last)
  · rw [if_neg valid]
    exact reportComplains (Bool.not_eq_true _ ▸ valid)

end

/- Why there is no program to be had from an input: it holds no text, or a plain step number of more
digits than an integer is read from. -/
inductive Unread (s : Surroundings) (input : String) : Breakdown → Prop where
  | text {fault : ReadingFault} (unread : inputText s input = .error fault)
      (textless : ∀ f path, fault ≠ .file f path) : Unread s input (.reading fault)
  | number {text : String} {ts : List Token} {t : Token} {fault : ParseFault}
      (read : inputText s input = .ok text) (scanned : tokenize text = .ok ts)
      (failed : parse ts = .error fault) (numbered : Assembly.StepNumbered ts t)
      (long : Numeral.digitLimit < t.lexeme.toList.length) : Unread s input (.number fault)

section
variable {s : Surroundings} {input : String} {broken : Breakdown → Prop}

theorem inputEnds {use : String → Except Breakdown Product}
    (each : ∀ text, inputText s input = .ok text → Ends broken (use text)) :
    Ends (fun b => Unread s input b ∨ broken b) (withInput s input use) := by
  unfold withInput
  cases read : inputText s input with
  | ok text => exact (each text read).mono fun b => .inr
  | error fault =>
    cases fault with
    | file fault path =>
      cases fault with
      | missing => exact Exits.refused _
      | _ => exact .inr ⟨rfl, _, by simp, List.mem_singleton_self _⟩
    | _ => exact .inl (.text read nofun)

theorem programEnds {use : Program → Except Breakdown Product}
    (each : ∀ p : Program, p.Supplied → Ends broken (use p)) :
    Ends (fun b => Unread s input b ∨ broken b) (withProgram s input use) := by
  suffices whole : Ends (fun b => Unread s input b ∨ Unread s input b ∨ broken b)
      (withProgram s input use) from whole.mono fun b given => given.elim .inl id
  refine inputEnds fun text read => ?_
  unfold ofSource
  cases scanned : tokenize text with
  | error fault => exact Exits.refused _
  | ok ts =>
    dsimp only
    cases parsed : parse ts with
    | error fault =>
      dsimp only
      split
      · rename_i numeric
        obtain ⟨t, numbered, _, long, _⟩ := parseNumeric scanned parsed numeric
        exact .inl (.number read scanned parsed numbered long)
      · exact Exits.refused _
    | ok p =>
      have supplied := parseSupplied (tokenizeSpelled scanned) parsed
      have ends := each p supplied
      cases used : use p with
      | error b =>
        rw [used] at ends
        dsimp only
        rw [used]
        exact .inr ends
      | ok product =>
        rw [used] at ends
        dsimp only
        rw [used]
        exact ends.behind _

end

/- What breaks a task down: commands that cannot be looked up, or an input without a program. -/
def Blocked (s : Surroundings) (settings : Settings) (task : Task) (b : Breakdown) : Prop :=
  Nameless settings b ∨ ∃ input, task.input? = some input ∧ Unread s input b

theorem performEnds (s : Surroundings) (settings : Settings) (task : Task) :
    Ends (Blocked s settings task) (perform s settings task) := by
  have sorted {input : String} (asked : task.input? = some input) (b : Breakdown)
      (given : Unread s input b ∨ Nameless settings b) : Blocked s settings task b :=
    given.elim (fun unread => .inr ⟨input, asked, unread⟩) .inl
  cases task with
  | commands => exact Ends.mono (fun b => .inl) (commandsEnd fun registry _ => .inl rfl)
  | tokens input =>
    refine Ends.mono (sorted rfl) (inputEnds fun text _ => ?_)
    cases tokenize text with
    | error fault => exact Exits.refused _
    | ok ts => exact .inl rfl
  | check input => exact (programEnds fun p supplied => checkEnds supplied).mono (sorted rfl)
  | describe input =>
    have described : ∀ p : Program, p.Supplied →
        Ends (Nameless settings) (.ok (describeTask p)) := fun _ _ => .inl rfl
    exact (programEnds described).mono (sorted rfl)
  | run input skip asJson =>
    exact (programEnds fun p supplied => runEnds supplied skip asJson).mono (sorted rfl)

/- The surroundings behind the opening of the log, if one is asked for. -/
def Opened (s : Surroundings) (invocation : Invocation) (opened : Surroundings) : Prop :=
  match invocation.preferences.logPath? with
  | some path => openLog s path = .ok opened
  | none => opened = s

/- What there is no answer to: a log that cannot be opened, a settings file that holds no settings, or
an input without a program. -/
inductive Unanswered (s : Surroundings) (invocation : Invocation) : Breakdown → Prop where
  | log {path : String} {b : Breakdown} (asked : invocation.preferences.logPath? = some path)
      (failed : openLog s path = .error b) : Unanswered s invocation b
  | settings {opened : Surroundings} {value : Json} {fault : SettingsFault}
      (opens : Opened s invocation opened)
      (inFile : Settings.InFile opened invocation.preferences.config value)
      (shapeless : ¬ value.IsSettings) : Unanswered s invocation (.settings fault)
  | input {opened : Surroundings} {input : String} {b : Breakdown}
      (opens : Opened s invocation opened) (asked : invocation.task.input? = some input)
      (unread : Unread opened input b) : Unanswered s invocation b

theorem openedEnds {s opened : Surroundings} {invocation : Invocation}
    (opens : Opened s invocation opened) :
    Ends (Unanswered s invocation)
      (match Settings.load opened invocation.preferences.config with
        | .error (.settings fault) => .error (.settings fault)
        | .error fault => .ok (.refused ("Cannot load config: " ++ fault.message))
        | .ok settings => perform opened settings invocation.task) := by
  cases loaded : Settings.load opened invocation.preferences.config with
  | error fault =>
    cases fault with
    | settings fault =>
      obtain ⟨value, inFile, shapeless⟩ := Settings.loadRefused loaded
      exact .settings opens inFile shapeless
    | _ => exact Exits.refused _
  | ok settings =>
    refine (performEnds opened settings invocation.task).mono fun b blocked => ?_
    rcases blocked with ⟨fault, nameless, rfl⟩ | ⟨input, asked, unread⟩
    · rcases Settings.loadNames loaded with ⟨registry, made⟩ | ⟨value, inFile, shapeless⟩
      · rw [made] at nameless
        cases nameless
      · exact .settings opens inFile shapeless
    · exact .input opens asked unread

theorem produceEnds (s : Surroundings) (invocation : Invocation) :
    Ends (Unanswered s invocation) (produce s invocation) := by
  unfold produce
  cases asked : invocation.preferences.logPath? with
  | none =>
    have opens : Opened s invocation s := by
      unfold Opened
      rw [asked]
    dsimp only
    rw [asked]
    exact openedEnds opens
  | some path =>
    dsimp only
    rw [asked]
    cases opening : openLog s path with
    | error b =>
      dsimp only
      rw [opening]
      exact .log asked opening
    | ok opened =>
      have opens : Opened s invocation opened := by
        unfold Opened
        rw [asked]
        exact opening
      dsimp only
      rw [opening]
      exact openedEnds opens

/- An invocation that is accepted ends with exit 0, or with exit 1 and something said, also behind the
choice of what is shown; otherwise the program breaks down over the log, over a settings file that does
not hold settings, or over an input without a program. -/
theorem answerExits (s : Surroundings) {args : List String} {invocation : Invocation}
    (accepted : Invocation.ofArguments args = .ok invocation) :
    (∃ outcome, answer s args = .ok outcome ∧ Exits outcome.exit outcome.notes) ∨
      ∃ b, answer s args = .error b ∧ Unanswered s invocation b := by
  have ends := produceEnds s invocation
  unfold answer
  rw [accepted]
  dsimp only
  cases produced : produce s invocation with
  | error b =>
    rw [produced] at ends
    exact .inr ⟨b, rfl, ends⟩
  | ok product =>
    rw [produced] at ends
    refine .inl ⟨_, rfl, ?_⟩
    rcases ends with done | ⟨failed, text, some, inside⟩
    · exact .inl done
    · exact .inr ⟨failed, text, some, List.mem_filter.mpr ⟨inside, rfl⟩⟩

/- A machine with one file, and no settings. -/
def oneFile (bytes : List UInt8) : Surroundings :=
  ⟨fun path => if path = "a.tf" then .file bytes else .missing, fun _ => none, "/home", "/", []⟩

def runOf (input : String) : Invocation := ⟨⟨none, .warning, none⟩, .run input false false⟩

theorem missingInputExits :
    Invocation.ofArguments ["run", "b.tf"] = .ok (runOf "b.tf") ∧
      ∃ outcome, answer (oneFile []) ["run", "b.tf"] = .ok outcome ∧
        Exits outcome.exit outcome.notes := by
  have accepted : Invocation.ofArguments ["run", "b.tf"] = .ok (runOf "b.tf") := by rfl
  have answered : answer (oneFile []) ["run", "b.tf"] =
      .ok ⟨1, "", [complain "File not found: b.tf"], none⟩ := by rfl
  rcases answerExits (oneFile []) accepted with exits | ⟨b, broken, _⟩
  · exact ⟨accepted, exits⟩
  · rw [answered] at broken
    cases broken

/- A file of one byte that begins no character. -/
theorem undecodableBreaks :
    Invocation.ofArguments ["run", "a.tf"] = .ok (runOf "a.tf") ∧
      answer (oneFile [0xff]) ["run", "a.tf"] =
        .error (.reading (.decoding ⟨.startByte, 0xff, 0, 1⟩)) := by
  have accepted : Invocation.ofArguments ["run", "a.tf"] = .ok (runOf "a.tf") := by rfl
  have bytes : Text.decode [0xff] = .error ⟨.startByte, 0xff, 0, 1⟩ := by cbv
  have unread : inputText (oneFile [0xff]) "a.tf" =
      .error (.decoding ⟨.startByte, 0xff, 0, 1⟩) := by
    change (Text.decode [0xff]).mapError ReadingFault.decoding = _
    rw [bytes]
    rfl
  have blocked : perform (oneFile [0xff]) (Settings.ofVariables (oneFile [0xff])) (runOf "a.tf").task =
      .error (.reading (.decoding ⟨.startByte, 0xff, 0, 1⟩)) := by
    change withProgram _ _ _ = _
    unfold withProgram withInput
    rw [unread]
  refine ⟨accepted, ?_⟩
  unfold answer
  rw [accepted]
  change (perform (oneFile [0xff]) (Settings.ofVariables _) (runOf "a.tf").task).map _ = _
  rw [blocked]
  rfl

end CommandLine
end Stepwise
