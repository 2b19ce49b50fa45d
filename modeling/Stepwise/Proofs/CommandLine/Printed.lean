import Stepwise.Proofs.CommandLine.Agreement
import Stepwise.Proofs.Execution.Document

/-! What a run prints that is asked for a document. The document loses nothing of the run; the trace
that the echo prints on the way stands in front of it, and then the whole is no document. -/
namespace Stepwise.CommandLine

/- Asked for a document, a run prints it behind what the echo has printed. -/
theorem documentOutput (echoed : Bool) (x : Execution) : runOutput echoed true x =
    (if echoed then eventLines x.events else "") ++ (x.document.document ++ "\n") := rfl

/- With the echo on, the whole of what is printed is no value, once anything has been told. -/
theorem echoUnread {registry : Registry} {p : Program}
    (told : ((Executor.fresh registry).execute p).events ≠ []) :
    ¬ ∃ value, Json.read (runOutput true true ((Executor.fresh registry).execute p)) = .ok value := by
  rintro ⟨value, read⟩
  obtain ⟨fault, unread⟩ := traceUnread told
    (((Executor.fresh registry).execute p).document.document ++ "\n")
  rw [documentOutput, if_pos rfl, unread] at read
  cases read

/- A run that is asked for a document, and that goes on to the execution, prints one behind what the
execution has printed. Reading it gives back every event, every result and the failure. What is printed
as a whole is a document just where the echo is off or there is no event. -/
theorem runDocuments {settings : Settings} {skip : Bool} {registry : Registry} {input text : String}
    {ts : List Token} {p : Program} {level : Level} {log : Option String}
    {one : Except Breakdown Outcome} (scanned : tokenize text = .ok ts) (parsed : parse ts = .ok p)
    (made : settings.simulation.registry = .ok registry) (goes : Executes settings skip registry p)
    (ran : Yields (.run input skip true) settings text level log one) :
    let echoed := settings.execution.echoTrace.isSet
    let run := (Executor.fresh registry).execute p
    ∃ outcome document, one = .ok outcome ∧
      outcome.output = ((Executor.fresh registry).perform echoed p).printed ++ document ∧
      (∃ value, Json.read document = .ok value ∧ value.run? = some run.view) ∧
      ((∃ value, Json.read outcome.output = .ok value) ↔ echoed = false ∨ run.events = []) := by
  intro echoed run
  have succeeds := SimulationSettings.registrySucceeds made
  have back : Json.read (run.document.document ++ "\n") = .ok run.document :=
    documentRead succeeds (parseShort (tokenizeSpelled scanned) parsed)
  obtain ⟨outcome, same, output⟩ := runExecuted scanned parsed made goes ran
  have printed := output.trans (documentOutput echoed run)
  refine ⟨outcome, run.document.document ++ "\n", same, ?_, ⟨run.document, back, documentViewed run rfl⟩,
    fun read => ?_, fun quiet => ⟨run.document, ?_⟩⟩
  · rw [Executor.performed]
    exact printed
  · by_contra loud
    rw [not_or, Bool.not_eq_false] at loud
    change outcome.output = runOutput echoed true run at output
    rw [output, loud.1] at read
    exact echoUnread loud.2 read
  · have silent : (if echoed then eventLines run.events else "") = "" := by
      rcases quiet with off | empty
      · rw [off]
        rfl
      · rw [empty]
        cases echoed <;> rfl
    rw [printed, silent, String.empty_append]
    exact back

theorem pipedDocument (echo : String) : Yields (.run "-" false true) (echoing echo) pipedText .warning none
    (answer (piped echo) ["run", "-", "--json"]) :=
  .answered rfl rfl rfl rfl (pipedRead echo)

theorem pipedRegistry (echo : String) : ∃ registry, (echoing echo).simulation.registry = .ok registry :=
  Settings.variablesRegistry (piped echo)

/- Whether a log is known or not, nothing is wrong with the piped text. -/
theorem pipedExecutes (echo : String) (registry : Registry) :
    Executes (echoing echo) false registry pipedProgram := by
  refine ⟨_, rfl, ?_⟩
  change ((pipedProgram.findings registry.names).filter fun f => f.cause.isError).isEmpty = true
  have only : pipedProgram.findings registry.names =
      if "log" ∈ registry.names then [] else [⟨.step 0, .unknownCommand "log" 1 "w", some 1⟩] := by
    change (if "log" ∈ registry.names then [] else _) ++ [] ++ [] = _
    rw [List.append_nil, List.append_nil]
  rw [only]
  split <;> rfl

theorem pipedDocuments :
    ∃ registry outcome document, (echoing "1").simulation.registry = .ok registry ∧
      Executes (echoing "1") false registry pipedProgram ∧
      answer (piped "1") ["run", "-", "--json"] = .ok outcome ∧
      let run := (Executor.fresh registry).execute pipedProgram
      outcome.output = ((Executor.fresh registry).perform true pipedProgram).printed ++ document ∧
        ∃ value, Json.read document = .ok value ∧ value.run? = some run.view := by
  obtain ⟨registry, made⟩ := pipedRegistry "1"
  have goes := pipedExecutes "1" registry
  obtain ⟨outcome, document, same, output, whole, _⟩ :=
    runDocuments pipedScanned pipedParsed made goes (pipedDocument "1")
  rw [echoingOn] at output
  exact ⟨registry, outcome, document, made, goes, same, output, whole⟩

/- With the echo on, what is printed of the piped text is no document. -/
theorem pipedEchoUnread :
    ∃ registry outcome, (echoing "1").simulation.registry = .ok registry ∧
      Executes (echoing "1") false registry pipedProgram ∧
      answer (piped "1") ["run", "-", "--json"] = .ok outcome ∧
      ¬ ∃ value, Json.read outcome.output = .ok value := by
  obtain ⟨registry, made⟩ := pipedRegistry "1"
  have goes := pipedExecutes "1" registry
  obtain ⟨outcome, same, output⟩ := runExecuted pipedScanned pipedParsed made goes (pipedDocument "1")
  have told : ((Executor.fresh registry).execute pipedProgram).events ≠ [] := by
    rw [Executor.freshTells]
    exact List.cons_ne_nil _ _
  rw [echoingOn] at output
  exact ⟨registry, outcome, made, goes, same, output ▸ echoUnread told⟩

end Stepwise.CommandLine
