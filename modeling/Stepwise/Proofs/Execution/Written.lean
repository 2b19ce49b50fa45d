import Stepwise.Proofs.Execution.Calls

/-! What a run writes into the tables that it finds. Declarations write into the environment, and
commands that are carried out into the results, each behind what was written before; nothing else is
written, wherever the run stops. -/
namespace Stepwise

/- Whether something is done, other than that a workflow is entered or a step is left. -/
def Occurrence.isDone : Occurrence → Bool
  | .workflowEntered _ | .stepLeft => false
  | _ => true

/- What is done at a visit, in its order. -/
def Visit.done (registry : Registry) : Visit → List Occurrence
  | .entered s t => .stepEntered s.id :: (s.own registry t).occurrences
  | .passed _ => []

/- What a part of a run does is done at these visits, at one behind the other. -/
def Does (registry : Registry) (vs : List Visit) (r : Run) : Prop :=
  r.occurrences.filter Occurrence.isDone = vs.flatMap (Visit.done registry)

section
variable {registry : Registry} {t : Tables} {s : Step}

theorem ownDone : (s.own registry t).occurrences.filter Occurrence.isDone =
    (s.own registry t).occurrences := by
  refine List.filter_eq_self.mpr fun o inside => ?_
  rcases ownTalk inside with spoken | ⟨taken, hasElse, rfl⟩
  · cases o <;> first | rfl | cases spoken
  · rfl

namespace Does

variable {vs ws : List Visit} {r : Run}

theorem passedAll (t : Tables) (steps : List Step) : Does registry (Step.passedAll steps) (.done t) := by
  unfold Does Step.passedAll
  rw [List.flatMap_map]
  exact (List.flatMap_eq_nil_iff.mpr fun _ _ => rfl).symm

theorem andThen (next : Tables → Run) (first : Does registry vs r)
    (second : Does registry ws (next r.tables)) :
    Does registry (vs ++ Step.onward r ws) (r.andThen next) := by
  unfold Does at first second ⊢
  cases h : r.failure with
  | some x =>
    rw [Run.andThenStopped h, first]
    simp only [Step.onward, h, List.append_nil]
  | none =>
    rw [Run.andThenDone h]
    simp only [Step.onward, h, List.filter_append, List.flatMap_append, first, second]

/- A step does what it does by itself, and then what is done within it. -/
theorem step {os : List Occurrence} (own : r.occurrences = (s.own registry t).occurrences ++ os)
    (within : os.filter Occurrence.isDone = vs.flatMap (Visit.done registry)) :
    Does registry (.entered s t :: vs) (r.within s.id) := by
  have left : [Occurrence.stepLeft].filter Occurrence.isDone = [] := rfl
  unfold Does Run.within
  rw [List.filter_cons_of_pos rfl, List.filter_append, own, List.filter_append, ownDone, within, left,
    List.append_nil]
  rfl

theorem handedOn (registry : Registry) : HandedOn registry fun _ _ vs r => Does registry vs r where
  command t id name arguments line contentLine :=
    step (s := .command id name arguments line contentLine) (List.append_nil _).symm rfl
  stopped own _ := step (by rw [own, List.append_nil]) rfl
  decided own block := step (own ▸ rfl) block
  passed := passedAll
  behind := andThen

end Does

theorem workflowsDo (registry : Registry) (t : Tables) (ws : List Workflow) :
    Does registry (Step.visitsAll registry t (ws.flatMap Workflow.steps)) (runWorkflows registry t ws) := by
  induction ws generalizing t with
  | nil => rfl
  | cons w rest ih =>
    have first : Does registry (Step.visitsAll registry t w.steps) (w.run registry t) :=
      (Does.handedOn registry).steps t w.steps
    rw [List.flatMap_cons, Step.visitsAllAppend]
    exact first.andThen (fun t => runWorkflows registry t rest) (ih _)

def bindingDone (made : Declaration × String) : Occurrence :=
  .bound made.1.keyword made.1.name made.2

theorem declarationsDo (t : Tables) (ds : List Declaration) :
    (runDeclarations t ds).occurrences = (bindings t ds).map bindingDone := by
  induction ds generalizing t with
  | nil => rfl
  | cons d rest ih =>
    unfold runDeclarations bindings Declaration.run
    cases d.value.eval t with
    | error x => rfl
    | ok value =>
      rw [Run.andThenNoted, ih]
      rfl

/- A run binds names, and goes on to its visits. -/
theorem Program.does (registry : Registry) (t : Tables) (p : Program) :
    (p.run registry t).occurrences.filter Occurrence.isDone =
      (bindings t p.declarations).map bindingDone ++
        (p.visits registry t).flatMap (Visit.done registry) := by
  have bound : (runDeclarations t p.declarations).occurrences.filter Occurrence.isDone =
      (bindings t p.declarations).map bindingDone := by
    rw [declarationsDo]
    refine List.filter_eq_self.mpr fun o inside => ?_
    obtain ⟨made, _, rfl⟩ := List.mem_map.mp inside
    rfl
  unfold run visits Step.onward
  cases h : (runDeclarations t p.declarations).failure with
  | some x =>
    rw [Run.andThenStopped h, bound]
    exact (List.append_nil _).symm
  | none =>
    rw [Run.andThenDone h]
    dsimp only
    rw [List.filter_append, bound, workflowsDo]
    rfl

/-! The environment. -/

/- The declarations that come to be bound are the first ones, each evaluated behind those before it, and
all of them where none fails. -/
theorem bindingsBegin (t : Tables) (ds : List Declaration) : ∃ rest,
    ds = (bindings t ds).map Prod.fst ++ rest ∧
      ((runDeclarations t ds).failure = none → rest = []) ∧
      ∀ before d value after, bindings t ds = before ++ (d, value) :: after →
        d.value.eval (t.bindAll before) = .ok value := by
  have empty {before after : List (Declaration × String)} {made : Declaration × String}
      (cut : [] = before ++ made :: after) : False := by cases before <;> cases cut
  induction ds generalizing t with
  | nil => exact ⟨[], rfl, fun _ => rfl, fun _ _ _ _ cut => (empty cut).elim⟩
  | cons d rest ih =>
    unfold runDeclarations bindings Declaration.run
    cases found : d.value.eval t with
    | error x => exact ⟨d :: rest, rfl, fun done => (by cases done), fun _ _ _ _ cut => (empty cut).elim⟩
    | ok value =>
      obtain ⟨others, split, whole, each⟩ := ih (t.bind d.name value)
      rw [Run.andThenNoted]
      refine ⟨others, congrArg (d :: ·) split, whole, fun before other v after cut => ?_⟩
      rcases consCut cut with ⟨rfl, same, _⟩ | ⟨inner, rfl, behind⟩
      · cases same
        exact found
      · exact each inner other v after behind

def writesOf (made : List (Declaration × String)) : List (String × String) :=
  made.map fun entry => (entry.1.name, entry.2)

theorem bindAllEnvironment (t : Tables) (made : List (Declaration × String)) :
    (t.bindAll made).environment =
      (writesOf made).foldl (fun table entry => table.put entry.1 entry.2) t.environment := by
  induction made generalizing t with
  | nil => rfl
  | cons entry rest ih => exact ih (t.bind entry.1.name entry.2)

theorem Program.runEnvironment (registry : Registry) (t : Tables) (p : Program) :
    (p.run registry t).tables.environment = (t.bindAll (bindings t p.declarations)).environment := by
  rw [← bindingsTables]
  cases declared : (runDeclarations t p.declarations).failure with
  | some x => rw [(runStopped declared).2.1]
  | none => exact (runJourney registry declared).environment

/-! The results. -/

theorem recordAllWrites (t : Tables) (made : List (Int × StepResult)) :
    (t.recordAll made).results =
      made.foldl (fun table entry => table.put entry.1 entry.2) t.results := by
  induction made generalizing t with
  | nil => rfl
  | cons entry rest ih => exact ih (t.record entry.1 entry.2)

/- A command that is carried out to its end. -/
def Visit.completes (registry : Registry) : Visit → Bool
  | .entered (.command id name arguments _ _) t =>
      (runCommand registry t id name arguments).failure.isNone
  | _ => false

/- What is recorded of a command with its arguments evaluated: what its handler answers, or that it is
unknown where the dispatch gives nothing. -/
inductive Visit.Recorded (registry : Registry) : Visit → Int × StepResult → Prop where
  | answered {id name arguments line contentLine t values said r}
      (read : Expr.evalAll t arguments = .ok values)
      (reply : registry.dispatch? name values = some ⟨said, .result r⟩) :
      Recorded registry (.entered (.command id name arguments line contentLine) t) (id, r)
  | unknown {id name arguments line contentLine t values}
      (read : Expr.evalAll t arguments = .ok values)
      (nothing : ∀ reply, registry.dispatch? name values = some reply → reply.outcome = .nothing) :
      Recorded registry (.entered (.command id name arguments line contentLine) t)
        (id, .unknownCommand name)

theorem commandRecords {id : Int} {name : String} {arguments : List Expr} {line contentLine : Option Nat} :
    let v : Visit := .entered (.command id name arguments line contentLine) t
    (v.completes registry = true ∧ ∃ made, v.recording? registry = some made ∧ v.Recorded registry made) ∨
      (v.completes registry = false ∧ v.recording? registry = none) := by
  simp only [Visit.completes, Visit.recording?, Visit.call?, runCommand]
  cases read : Expr.evalAll t arguments with
  | error x => exact .inr ⟨rfl, rfl⟩
  | ok values =>
    simp only [Option.bind_some, Call.recording?, Call.recorded?]
    cases reply : registry.dispatch? name values with
    | none => exact .inl ⟨rfl, _, rfl, .unknown read (by simp [reply])⟩
    | some answer =>
      obtain ⟨said, outcome⟩ := answer
      cases outcome with
      | result r => exact .inl ⟨rfl, _, rfl, .answered read reply⟩
      | nothing => exact .inl ⟨rfl, _, rfl, .unknown read (by simp [reply])⟩
      | failed message => exact .inr ⟨rfl, rfl⟩

/- There is one recording for every command that is carried out to its end, and none else. -/
theorem recordingsCompleted (registry : Registry) (vs : List Visit) :
    List.Forall₂ (Visit.Recorded registry) (vs.filter (Visit.completes registry))
      (recordings registry vs) := by
  induction vs with
  | nil => exact .nil
  | cons v rest ih =>
    have first : (v.completes registry = true ∧
          ∃ made, v.recording? registry = some made ∧ v.Recorded registry made) ∨
        (v.completes registry = false ∧ v.recording? registry = none) := by
      cases v with
      | passed s => exact .inr ⟨rfl, rfl⟩
      | entered s t =>
        cases s with
        | command => exact commandRecords
        | _ => exact .inr ⟨rfl, rfl⟩
    rw [recordingsCons]
    rcases first with ⟨completes, made, recording, recorded⟩ | ⟨stops, none_⟩
    · rw [List.filter_cons_of_pos completes, recording]
      exact .cons recorded ih
    · rw [List.filter_cons_of_neg (by simp [stops]), none_]
      exact ih

end

/- The tables behind a run are the ones it found, updated by what it wrote: the last to a key wins, in
the place of the first. -/
structure Execution.Written (x : Executor) (p : Program) (run : Execution) : Prop where
  /- what the run does is to bind names, and then what is done at its visits -/
  does : (p.run x.registry x.tables).occurrences.filter Occurrence.isDone =
    (bindings x.tables p.declarations).map bindingDone ++
      (p.visits x.registry x.tables).flatMap (Visit.done x.registry)
  bound : ∃ rest, p.declarations = (bindings x.tables p.declarations).map Prod.fst ++ rest ∧
    (run.failure = none → rest = []) ∧
    ∀ before d value after, bindings x.tables p.declarations = before ++ (d, value) :: after →
      d.value.eval (x.tables.bindAll before) = .ok value
  environment : run.executor.tables.environment.LastWins
    (x.tables.environment.entries ++ writesOf (bindings x.tables p.declarations))
  /- the entries of the commands that were carried out to their ends, one for each and in their order -/
  results : ∃ entries, List.Forall₂ (Visit.Recorded x.registry)
      ((p.visits x.registry x.tables).filter (Visit.completes x.registry)) entries ∧
    run.executor.tables.results.LastWins (x.tables.results.entries ++ entries)
  conditionals : ∀ (s : Step) t, s.condition? ≠ none → (s.own x.registry t).tables = t
  steps : ∀ (s : Step) t, (s.run x.registry t).tables.environment = t.environment
  declarations : ∀ (d : Declaration) t, (d.run t).tables.results = t.results

/- Whatever an executor finds in its tables, and wherever a program stops, nothing is in them afterwards
but what was there and what the declarations and the commands that ran have written over it. -/
theorem Executor.executeWritten (x : Executor) (p : Program) : (x.execute p).Written x p where
  does := p.does x.registry x.tables
  bound := by
    obtain ⟨rest, split, whole, each⟩ := bindingsBegin x.tables p.declarations
    exact ⟨rest, split, fun done => whole (Program.declarationsDoneOfRun done), each⟩
  environment := by
    change (p.run x.registry x.tables).tables.environment.LastWins _
    rw [p.runEnvironment, bindAllEnvironment]
    exact (Table.LastWins.entries x.tables.environment).putAll _
  results := by
    refine ⟨recordings x.registry (p.visits x.registry x.tables), recordingsCompleted _ _, ?_⟩
    change (p.run x.registry x.tables).tables.results.LastWins _
    rw [p.runRecords, recordAllWrites]
    exact (Table.LastWins.entries x.tables.results).putAll _
  conditionals s t owner := by
    cases s with
    | ifOnly | ifElse => exact Step.ownSilent rfl
    | command | absent => exact absurd rfl owner
  steps s t := (Step.accounts x.registry t s).journey.environment
  declarations d t := by
    unfold Declaration.run
    cases d.value.eval t <;> rfl

end Stepwise
