import Stepwise.Proofs.Execution.Answers
import Stepwise.Proofs.Execution.Calls
import Stepwise.Proofs.Review.Duplicates

/-! Commands that are not registered. A review warns of them by the names that it is given, a run finds
out at each call; both go by one registry, and whatever a review says of a step is what becomes of its
call. -/
namespace Stepwise

/- Every command answers with a result. -/
def Registry.Answers (registry : Registry) : Prop :=
  ∀ name handler, registry.get? name = some handler →
    ∀ arguments, ∃ r, (handler arguments).outcome = .result r

theorem Registry.Succeeds.answers {registry : Registry} (succeeds : registry.Succeeds) :
    registry.Answers := by
  intro name handler found arguments
  obtain ⟨data, message, outcome⟩ := succeeds name handler found arguments
  exact ⟨_, outcome⟩

theorem Registry.namesHold (registry : Registry) (name : String) :
    name ∈ registry.names ↔ ∃ handler, registry.get? name = some handler := by
  rw [names, List.mem_mergeSort, Table.getSome]

/- What becomes of a call, and is told of it, by whether there was a warning of its command. -/
inductive Call.Foretold (registry : Registry) (w : Workflow) (level : Nat) (c : Call) (warned : Prop) :
    List Event → StepResult → Prop where
  | unknown (warning : warned) :
      Foretold registry w level c warned [unknownEvent w level c.step c.name] (.unknownCommand c.name)
  | answered {handler said r} (silence : ¬ warned) (registered : registry.get? c.name = some handler)
      (answer : handler c.values = ⟨said, .result r⟩) :
      Foretold registry w level c warned (said.map (lineEvent w level c.step)) r

namespace Program

variable {p : Program} {registry : Registry} {settings : ReviewSettings} {report : Report Finding}
  {place : Nat} {w : Workflow} {s : Step} {t : Tables} {c : Call}

/- A warning of a command that is not registered, on the step of a call. -/
def Warned (report : Report Finding) (place : Nat) (w : Workflow) (s : Step) (c : Call) : Prop :=
  ⟨.step place, .unknownCommand c.name c.step w.name, s.line⟩ ∈ report.all

/- A report that foretells what becomes of the calls of a run: each is told of behind the beginning of
its step and leads to the one or the other, before anything is told of another step. -/
structure Foretold (p : Program) (registry : Registry) (report : Report Finding) : Prop where
  calls : callsTold ((Executor.fresh registry).execute p).events =
    (calls (p.visits registry .empty)).map fun c => some c.step
  recorded : ((Executor.fresh registry).execute p).executor.tables.results =
    (Tables.empty.recordAll (recordings registry (p.visits registry .empty))).results
  each : ∀ place s t c, (p.visits registry .empty)[place]? = some (.entered s t) →
    (Visit.entered s t).call? = some c → ∃ w level before told after r,
      p.walk[place]? = some (w, s) ∧
      ((Executor.fresh registry).execute p).events = before ++ startEvent w s level ::
        callEvent w level c.step c.name c.values :: (told ++ after) ∧ Apart after ∧
      (s.run registry t).tables = t.record c.step r ∧ c.recording? registry = some (c.step, r) ∧
      c.Foretold registry w level (Warned report place w s c) told r

theorem unknownFinding {commands : List String} {f : Finding} (inside : f ∈ p.findings commands)
    (unknown : f.cause.isUnknown = true) :
    ∃ place w s, p.walk[place]? = some (w, s) ∧ f ∈ commandFindings commands place w s := by
  have parts : f ∈ p.duplicateFindings ∨
      f ∈ p.declarationFindings ++ p.emptyFindings ++ p.stepFindings commands := by
    rw [findings, List.append_assoc, List.append_assoc, ← List.append_assoc p.declarationFindings]
      at inside
    exact List.mem_append.mp inside
  rcases parts with duplicate | other
  · obtain ⟨_, _, _, _, _, _, _, _, _, rfl⟩ := duplicateFinding duplicate
    cases unknown
  · refine (otherFinding other).resolve_right fun plain => ?_
    rw [plain.2] at unknown
    cases unknown

/- There is a warning of the command of a step just if no command of that name is registered. -/
theorem warnedIff (under : p.reviewUnder? settings registry = some report)
    (at_ : p.walk[place]? = some (w, s)) (called_ : (Visit.entered s t).call? = some c) :
    Warned report place w s c ↔ registry.get? c.name = none := by
  obtain ⟨arguments, line, contentLine, rfl, _⟩ := called called_
  rw [Warned, reviewedMem under, ← Option.not_isSome_iff_eq_none, Option.isSome_iff_exists,
    ← Registry.namesHold]
  constructor
  · intro inside
    obtain ⟨other, v, d, _, command⟩ := unknownFinding inside rfl
    cases d with
    | command id name arguments' line' contentLine' =>
      simp only [commandFindings] at command
      split at command
      · cases command
      · rename_i missing
        simp only [List.mem_singleton, Finding.mk.injEq, FindingCause.unknownCommand.injEq] at command
        obtain ⟨_, ⟨same, _, _⟩, _⟩ := command
        rw [same]
        exact missing
    | _ => cases command
  · intro missing
    have command : (⟨.step place, .unknownCommand c.name c.step w.name, line⟩ : Finding) ∈
        commandFindings registry.names place w
          (.command c.step c.name arguments line contentLine) := by
      rw [commandFindings, if_neg missing]
      exact List.mem_singleton_self _
    exact List.mem_append_right _ (stepFinding.mpr ⟨w, _, place, at_, .inl command⟩)

/- What a call leads to where all commands answer. -/
theorem callForetold (answers : registry.Answers) {level : Nat} {warned : Prop} (own : s.id = c.step)
    (known : warned ↔ registry.get? c.name = none) : ∃ r,
      c.recording? registry = some (c.step, r) ∧
      c.Foretold registry w level warned ((c.behind registry).filterMap (innerEvent? w level s)) r := by
  unfold Call.recording? Call.recorded? Call.behind Registry.dispatch?
  cases found : registry.get? c.name with
  | none =>
    have told : [Occurrence.unknown c.step c.name].filterMap (innerEvent? w level s) =
        [unknownEvent w level c.step c.name] := by
      rw [← own]
      rfl
    refine ⟨.unknownCommand c.name, rfl, ?_⟩
    rw [Option.map_none, told]
    exact .unknown (known.mpr found)
  | some handler =>
    obtain ⟨r, answer⟩ := answers c.name handler found c.values
    refine ⟨r, by simp [answer], ?_⟩
    simp only [Option.map_some, answer, List.append_nil]
    rw [linesTold, own]
    refine .answered (fun warning => ?_) found (by rw [← answer])
    rw [known.mp warning] at found
    cases found

theorem reportForetold (answers : registry.Answers)
    (under : p.reviewUnder? settings registry = some report) : p.Foretold registry report := by
  have events : ((Executor.fresh registry).execute p).events = p.told registry .empty :=
    Executor.freshTells registry p
  refine ⟨events ▸ toldCalls registry p, runRecords registry .empty p, fun place s t c entry called_ => ?_⟩
  obtain ⟨w, level, before, after, walked, told, apart⟩ := toldAt entry
  obtain ⟨arguments, line, contentLine, rfl, _⟩ := called called_
  have own : (Step.command c.step c.name arguments line contentLine).id = c.step := rfl
  obtain ⟨r, recorded, foretold⟩ := callForetold answers own (warnedIff under walked called_)
  refine ⟨w, level, before, _, after, r, walked, ?_, apart, ?_, recorded, foretold⟩
  · rw [events, told]
    simp only [Visit.told, ownOccurs registry called_]
    rfl
  · have tables := (ownCalled registry called_).1
    rw [recorded] at tables
    exact tables

/- A review says of every command step what becomes of its calls, with any registry of commands that
answer, and so does a review by settings of the run by the same settings. -/
theorem unknownForetold (p : Program) (whole : ∀ found ∈ p.walk, found.2.isAbsent = false) :
    (∀ (registry : Registry) settings, registry.Answers → ∃ report,
      p.reviewUnder? settings registry = some report ∧ p.Foretold registry report) ∧
    ∀ (settings : Settings) (names : List String), settings.simulation.disabled = names.map .string →
      ∃ registry report, settings.simulation.registry = .ok registry ∧
        (∀ name, registry.contains name = true ↔
          (∃ s : Simulated, s.name = name) ∧ name ∉ names) ∧
        p.reviewUnder? settings.review registry = some report ∧ p.Foretold registry report := by
  have given : ∀ (registry : Registry) settings, registry.Answers → ∃ report,
      p.reviewUnder? settings registry = some report ∧ p.Foretold registry report := by
    intro registry settings answers
    obtain ⟨plain, accepted⟩ := acceptedWhole registry.names whole
    have under := congrArg (Option.map fun report =>
      if settings.warningsAsErrors.isSet then report.promote else report) accepted
    exact ⟨_, under, reportForetold answers under⟩
  refine ⟨given, fun settings names disabled => ?_⟩
  obtain ⟨registry, made, named⟩ := SimulationSettings.registryNamed disabled
  obtain ⟨report, under, foretold⟩ :=
    given registry settings.review (SimulationSettings.registrySucceeds made).answers
  exact ⟨registry, report, made, named, under, foretold⟩

/- A command that is registered beside one that is not, which a branch holds. -/
def strangeFetch : Program :=
  ⟨[⟨"let", "ready", .text "true" none, none⟩],
    [⟨"w", [.command 1 "fetch" [.name "ready" none] none none,
      .ifOnly 2 (.name "ready" none) [.command 3 "bogus" [] none none] none none], none⟩], none⟩

theorem strangeFetchForetold :
    (∀ found ∈ strangeFetch.walk, found.2.isAbsent = false) ∧
    ∃ registry report, SimulationSettings.registry SimulationSettings.default = .ok registry ∧
      registry.contains "fetch" = true ∧
      strangeFetch.reviewUnder? .default registry = some report ∧
      strangeFetch.Foretold registry report := by
  have whole : ∀ found ∈ strangeFetch.walk, found.2.isAbsent = false := by decide
  obtain ⟨registry, report, made, named, under, foretold⟩ :=
    (unknownForetold strangeFetch whole).2 .default [] rfl
  exact ⟨whole, registry, report, made, (named "fetch").mpr ⟨⟨.fetch, rfl⟩, List.not_mem_nil⟩,
    under, foretold⟩

end Program
end Stepwise
