import Stepwise.Proofs.Execution.Course
import Stepwise.Proofs.Execution.Stopping
import Stepwise.Proofs.Grammar.Supplied

/-! What the steps of a program that is read from a text can come to. No simulated command fails and
no part of the program is missing, so that a run fails only where a name, a result or an operator is
unknown, and every result is a success or that of a command which is not registered. -/
namespace Stepwise

/- The errors of looking something up, and of an operator that means nothing. -/
inductive EvalError.Spelled : EvalError → Prop where
  | variable (name : String) : Spelled (.undefinedVariable name)
  | step (id : Int) : Spelled (.stepNotFound id)
  | operator (operator expression : String) : Spelled (.unknownOperator operator expression)

namespace Expr

variable {t : Tables} {e : Expr} {x : EvalError}

theorem Supplied.errorSpelled (h : e.Supplied) (error : e.eval t = .error x) : x.Spelled := by
  induction e with
  | text | number => cases error
  | name word line =>
    unfold eval at error
    split at error
    · cases error
    · cases error
      exact .variable word
  | binary left operator right line ihLeft ihRight =>
    rcases evalBinaryError error with first | ⟨_, second⟩ | ⟨⟨a, b, evalLeft, evalRight⟩, _⟩
    · exact ihLeft h.1 first
    · exact ihRight h.2 second
    · obtain ⟨text, rendered⟩ := Supplied.rendered (e := .binary left operator right line) h
      simp only [eval, evalLeft, evalRight, rendered] at error
      split at error
      · cases error
      · cases error
        exact .operator operator text
  | property object part line ih => exact ih h (evalPropertyError error)
  | result step part line =>
    unfold eval at error
    split at error
    · cases error
    · cases error
      exact .step step
  | absent => cases h

end Expr

/- A registry of which no command fails or answers with nothing. -/
def Registry.Succeeds (registry : Registry) : Prop :=
  ∀ name handler, registry.get? name = some handler →
    ∀ arguments, ∃ data message, (handler arguments).outcome = .result (.ok data message)

/- What is recorded of a command: a success, or that no command has its name. -/
inductive Answer (registry : Registry) (name : String) : StepResult → Prop where
  | success {r} (succeeded : r.success = true) (status : r.status = 200) : Answer registry name r
  | unknown (unregistered : registry.contains name = false) :
      Answer registry name (.unknownCommand name)

section
variable {registry : Registry} {name : String}

theorem dispatchAnswers (succeeds : registry.Succeeds) {values : List String} {reply : Reply}
    (h : registry.dispatch? name values = some reply) :
    ∃ r, reply.outcome = .result r ∧ Answer registry name r := by
  obtain ⟨handler, found, rfl⟩ := Option.map_eq_some_iff.mp h
  obtain ⟨data, message, outcome⟩ := succeeds name handler found values
  exact ⟨_, outcome, .success rfl rfl⟩

theorem commandAnswers (succeeds : registry.Succeeds) (t : Tables) (id : Int) (name : String)
    (arguments : List Expr) :
    (∃ x, runCommand registry t id name arguments = .failed t (.evaluation x)) ∨
    ∃ r, Answer registry name r ∧ (runCommand registry t id name arguments).failure = none ∧
      (runCommand registry t id name arguments).tables = t.record id r := by
  unfold runCommand
  cases Expr.evalAll t arguments with
  | error x => exact .inl ⟨x, rfl⟩
  | ok values =>
    refine .inr ?_
    dsimp only
    cases found : registry.dispatch? name values with
    | none =>
      have unregistered : registry.contains name = false :=
        Option.isSome_eq_false_iff.mpr (Option.isNone_iff_eq_none.mpr (Option.map_eq_none_iff.mp found))
      exact ⟨_, .unknown unregistered, rfl, rfl⟩
    | some reply =>
      obtain ⟨said, outcome⟩ := reply
      obtain ⟨r, rfl, answer⟩ := dispatchAnswers succeeds found
      exact ⟨r, answer, rfl, rfl⟩

end

/- A result that is recorded under an id is the answer of a command step with this id. -/
def Answered (registry : Registry) (steps : List Step) (id : Int) (r : StepResult) : Prop :=
  ∃ name arguments line contentLine, .command id name arguments line contentLine ∈ steps ∧
    Answer registry name r

def Tables.Answered (registry : Registry) (steps : List Step) (t : Tables) : Prop :=
  ∀ id r, t.results.get? id = some r → Stepwise.Answered registry steps id r

section
variable {registry : Registry} {steps : List Step} {t u : Tables} {s : Step} {vs : List Visit}
  {f : Option Failure} {p : Program}

theorem ownAnswers (succeeds : registry.Succeeds) (walked : s ∈ steps)
    (before : t.Answered registry steps) : (s.own registry t).tables.Answered registry steps := by
  cases s with
  | command id name arguments line contentLine =>
    rcases commandAnswers succeeds t id name arguments with ⟨x, failed⟩ | ⟨r, answer, _, recorded⟩
    · change (runCommand registry t id name arguments).tables.Answered registry steps
      rw [failed]
      exact before
    · change (runCommand registry t id name arguments).tables.Answered registry steps
      rw [recorded]
      intro other found at_
      rw [Tables.record, Table.getPut] at at_
      split at at_
      · rename_i same
        cases at_
        exact ⟨name, arguments, line, contentLine, same ▸ walked, answer⟩
      · exact before other found at_
  | ifOnly | ifElse | absent =>
    rw [Step.ownSilent rfl]
    exact before

theorem Journey.answered (succeeds : registry.Succeeds) (h : Journey registry t vs u f)
    (walked : ∀ v ∈ vs, v.step ∈ steps) (before : t.Answered registry steps) :
    u.Answered registry steps ∧ ∀ s v, .entered s v ∈ vs → v.Answered registry steps := by
  induction h with
  | home t => exact ⟨before, nofun⟩
  | passed s rest ih =>
    obtain ⟨_, others⟩ := List.forall_mem_cons.mp walked
    obtain ⟨last, each⟩ := ih others before
    exact ⟨last, fun s v inside => each s v (by simpa using inside)⟩
  | entered done rest ih =>
    obtain ⟨first, others⟩ := List.forall_mem_cons.mp walked
    obtain ⟨last, each⟩ := ih others (ownAnswers succeeds first before)
    refine ⟨last, fun s v inside => ?_⟩
    rcases List.mem_cons.mp inside with here | later
    · cases here
      exact before
    · exact each s v later
  | stopped failed =>
    obtain ⟨first, _⟩ := List.forall_mem_cons.mp walked
    refine ⟨ownAnswers succeeds first before, fun s v inside => ?_⟩
    cases List.mem_singleton.mp inside
    exact before

/- A step that is supplied fails by itself only over an expression. -/
theorem ownFails (succeeds : registry.Succeeds) (supplied : s.Supplied) {x : Failure}
    (h : (s.own registry t).failure = some x) : ∃ e, x = .evaluation e ∧ e.Spelled := by
  rcases ownStops h with ⟨e, rfl, ⟨read, inside, error⟩, _⟩ |
    ⟨id, name, arguments, line, contentLine, values, said, message, _, _, _, reply, _⟩ |
    ⟨⟨id, line, rfl⟩, _⟩
  · exact ⟨e, rfl, (supplied.expressions read inside).errorSpelled error⟩
  · obtain ⟨r, outcome, _⟩ := dispatchAnswers succeeds reply
    cases outcome
  · cases supplied.content

theorem Program.visitsWalked {v : Visit} (inside : v ∈ p.visits registry t) :
    v.step ∈ p.walk.map Prod.snd :=
  (visitsAlong registry t p).start.subset (List.mem_map_of_mem inside)

theorem Program.runFails (succeeds : registry.Succeeds) (supplied : p.Supplied) {x : Failure}
    (h : (p.run registry t).failure = some x) : ∃ e, x = .evaluation e ∧ e.Spelled := by
  cases declared : (runDeclarations t p.declarations).failure with
  | some y =>
    rw [(runStopped declared).1] at h
    cases h
    obtain ⟨before, d, after, e, split, rfl, _, error⟩ := declarationsStopped declared
    have inside : d ∈ p.declarations := by simp [split]
    exact ⟨e, rfl, (supplied.values d inside).errorSpelled error⟩
  | none =>
    obtain ⟨vs, s, visits, failed⟩ := (h ▸ runJourney registry declared).last
    have inside : Visit.entered s (p.run registry t).tables ∈ p.visits registry t := by simp [visits]
    obtain ⟨entry, walked, rfl⟩ := List.mem_map.mp (visitsWalked inside)
    exact ownFails succeeds (supplied.steps entry walked) failed

theorem declarationsResults (t : Tables) (ds : List Declaration) :
    (runDeclarations t ds).tables.results = t.results := by
  cases h : (runDeclarations t ds).failure with
  | none => exact (declarationsDone h).1.results
  | some x =>
    obtain ⟨_, _, _, _, _, _, bound, _⟩ := declarationsStopped h
    exact bound.results

theorem Program.runAnswers (succeeds : registry.Succeeds) :
    (p.run registry .empty).tables.Answered registry (p.walk.map Prod.snd) ∧
      ∀ s v, .entered s v ∈ p.visits registry .empty →
        v.Answered registry (p.walk.map Prod.snd) := by
  have before : (runDeclarations .empty p.declarations).tables.Answered registry
      (p.walk.map Prod.snd) := by
    intro id r found
    rw [declarationsResults] at found
    cases found
  cases declared : (runDeclarations .empty p.declarations).failure with
  | some y =>
    rw [(runStopped declared).2.1, (runStopped declared).2.2]
    exact ⟨before, nofun⟩
  | none =>
    exact (runJourney registry declared).answered succeeds (fun v inside => visitsWalked inside) before

end

/- What holds a settings value together with others. -/
def Json.isContainer : Json → Bool
  | .array _ | .object _ => true
  | _ => false

namespace Registry

theorem Succeeds.erase {registry : Registry} (succeeds : registry.Succeeds) (name : String) :
    Registry.Succeeds (registry.erase name) := by
  intro other handler found
  rw [Table.getErase] at found
  split at found
  · cases found
  · exact succeeds other handler found

/- Disabling commands leaves the others as they are. -/
theorem disableSucceeds {values : List Json} {registry rest : Registry}
    (h : disable values registry = .ok rest) (succeeds : registry.Succeeds) : rest.Succeeds := by
  induction values generalizing registry with
  | nil =>
    cases h
    exact succeeds
  | cons value values ih =>
    cases value with
    | string name => exact ih h (succeeds.erase name)
    | array | object =>
      simp only [disable] at h
      split at h
      · exact ih h succeeds
      · cases h
    | _ => exact ih h succeeds

/- Only a list or an object cannot be looked up. -/
theorem disableLoose {values : List Json} (loose : ∀ value ∈ values, value.isContainer = false)
    (registry : Registry) : ∃ rest, disable values registry = .ok rest := by
  induction values generalizing registry with
  | nil => exact ⟨registry, rfl⟩
  | cons value values ih =>
    obtain ⟨first, others⟩ := List.forall_mem_cons.mp loose
    cases value with
    | string name => exact ih others (registry.erase name)
    | array | object => cases first
    | _ => exact ih others registry

theorem disableNames (registry : Registry) (names : List String) :
    disable (names.map .string) registry = .ok (registry.without names) := by
  induction names generalizing registry with
  | nil => rfl
  | cons name rest ih => exact ih (registry.erase name)

theorem withoutGet (registry : Registry) (names : List String) (name : String) :
    (registry.without names).get? name = if name ∈ names then none else registry.get? name := by
  induction names generalizing registry with
  | nil => rfl
  | cons other rest ih =>
    refine (ih (registry.erase other)).trans ?_
    rw [Table.getErase]
    by_cases later : name ∈ rest <;> by_cases first : name = other <;> simp [later, first]

end Registry

theorem Simulated.replySucceeds (settings : SimulationSettings) (arguments : List String)
    (s : Simulated) :
    ∃ data message, (s.reply settings arguments).outcome = .result (.ok data message) := by
  cases s <;> exact ⟨_, _, rfl⟩

namespace SimulationSettings

variable {settings : SimulationSettings} {registry : Registry} {names : List String}

theorem commandsSucceed (settings : SimulationSettings) : settings.commands.Succeeds := by
  intro name handler found arguments
  obtain ⟨s, _, same⟩ := List.mem_map.mp (Table.getOfList found)
  cases same
  exact s.replySucceeds settings arguments

theorem registrySucceeds (made : settings.registry = .ok registry) : registry.Succeeds :=
  Registry.disableSucceeds made settings.commandsSucceed

theorem commandsHold (settings : SimulationSettings) (name : String) :
    settings.commands.contains name = true ↔ ∃ s : Simulated, s.name = name := by
  have keys : settings.commands.keys = Simulated.all.map Simulated.name := by rfl
  have all : ∀ s : Simulated, s ∈ Simulated.all := fun s => by cases s <;> decide
  rw [Table.contains, Option.isSome_iff_exists, Table.getSome, keys, List.mem_map]
  exact ⟨fun ⟨s, _, same⟩ => ⟨s, same⟩, fun ⟨s, same⟩ => ⟨s, all s, same⟩⟩

/- The registered commands are the simulated ones that are not disabled. -/
theorem registryNamed (disabled : settings.disabled = names.map .string) :
    ∃ registry, settings.registry = .ok registry ∧ ∀ name,
      registry.contains name = true ↔ (∃ s : Simulated, s.name = name) ∧ name ∉ names := by
  refine ⟨settings.commands.without names, ?_, fun name => ?_⟩
  · rw [SimulationSettings.registry, disabled, Registry.disableNames]
  · rw [Table.contains, Registry.withoutGet, ← commandsHold settings name]
    by_cases among : name ∈ names <;> simp [among, Table.contains]

end SimulationSettings

/- Settings that disable commands by their names leave just the other simulated commands. A program
that is read from a text and run with them completes, or fails over an unknown variable, result or
operator; and whatever a step or the end of the run finds recorded is the answer of a command step, a
success or that its command is not registered. -/
theorem executeRead {source : String} {ts : List Token} {p : Program}
    {settings : SimulationSettings} {names : List String} (scanned : tokenize source = .ok ts)
    (read : parse ts = .ok p) (disabled : settings.disabled = names.map .string) :
    ∃ registry, settings.registry = .ok registry ∧
      (∀ name, registry.contains name = true ↔ (∃ s : Simulated, s.name = name) ∧ name ∉ names) ∧
      (∀ f, ((Executor.fresh registry).execute p).failure = some f →
        ∃ e, f = .evaluation e ∧ e.Spelled) ∧
      ((Executor.fresh registry).execute p).executor.tables.Answered registry (p.walk.map Prod.snd) ∧
      ∀ s t, .entered s t ∈ p.visits registry .empty →
        t.Answered registry (p.walk.map Prod.snd) := by
  obtain ⟨registry, made, named⟩ := SimulationSettings.registryNamed disabled
  have succeeds := SimulationSettings.registrySucceeds made
  have supplied := parseSupplied (tokenizeSpelled scanned) read
  exact ⟨registry, made, named, fun f failed => Program.runFails succeeds supplied failed,
    Program.runAnswers succeeds⟩

/- A command that is disabled, and a variable that nothing declares. -/
def quietText : String := "workflow 'w' \x7b step 1: log() step 2: print(a) \x7d"

def quietTokens : List Token :=
  [⟨.keyword .workflow, "workflow", none, 1⟩, ⟨.string, "'w'", some "w", 1⟩,
    ⟨.mark .leftBrace, "\x7b", none, 1⟩, ⟨.keyword .step, "step", none, 1⟩,
    ⟨.number, "1", some "1", 1⟩, ⟨.mark .colon, ":", none, 1⟩, ⟨.keyword .log, "log", none, 1⟩,
    ⟨.mark .leftParen, "(", none, 1⟩, ⟨.mark .rightParen, ")", none, 1⟩,
    ⟨.keyword .step, "step", none, 1⟩, ⟨.number, "2", some "2", 1⟩, ⟨.mark .colon, ":", none, 1⟩,
    ⟨.keyword .print, "print", none, 1⟩, ⟨.mark .leftParen, "(", none, 1⟩,
    ⟨.identifier, "a", none, 1⟩, ⟨.mark .rightParen, ")", none, 1⟩,
    ⟨.mark .rightBrace, "\x7d", none, 1⟩, .endAt 1]

def quietProgram : Program :=
  ⟨[], [⟨"w", [.command 1 "log" [] (some 1) (some 1),
    .command 2 "print" [.name "a" (some 1)] (some 1) (some 1)], some 1⟩], some 1⟩

def quietSettings : SimulationSettings := { SimulationSettings.default with disabled := [.string "log"] }

theorem quietTextAnswers :
    tokenize quietText = .ok quietTokens ∧ parse quietTokens = .ok quietProgram ∧
      ∃ registry, quietSettings.registry = .ok registry ∧
        let run := (Executor.fresh registry).execute quietProgram
        run.failure = some (.evaluation (.undefinedVariable "a")) ∧
          run.executor.tables.results.get? 1 = some (.unknownCommand "log") ∧
          run.executor.tables.Answered registry (quietProgram.walk.map Prod.snd) := by
  have scanned : tokenize quietText = .ok quietTokens := by cbv
  have read : parse quietTokens = .ok quietProgram := by rfl
  have disabled : quietSettings.disabled = ["log"].map .string := by rfl
  obtain ⟨registry, made, _, _, answered, _⟩ := executeRead scanned read disabled
  refine ⟨scanned, read, registry, made, ?_, ?_, answered⟩
  · cases made
    rfl
  · cases made
    rfl

end Stepwise
