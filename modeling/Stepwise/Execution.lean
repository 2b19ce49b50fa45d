import Stepwise.Expr.Evaluation
import Stepwise.Program
import Stepwise.Simulation
import Stepwise.Trace

/-! Runs of programs. A run is what occurs, the tables at its end and its failure, if any; what
occurred and was recorded before a failure stays. -/
namespace Stepwise

inductive Failure where
  | evaluation (error : EvalError)
  | command (message : String)
  | absentContent
  deriving DecidableEq, Repr

namespace Failure

def message : Failure → String
  | .evaluation error => error.message
  | .command message => message
  | .absentContent => "Unknown step content: NoneType"

/-- Failures of the workflow language itself; others come from a command or from a program that no
text spells. -/
def isReported : Failure → Bool
  | .evaluation error => error.isReported
  | _ => false

end Failure

structure Run where
  occurrences : List Occurrence
  tables : Tables
  failure : Option Failure

namespace Run

def done (t : Tables) : Run := ⟨[], t, none⟩

def failed (t : Tables) (f : Failure) : Run := ⟨[], t, some f⟩

def noted (t : Tables) (o : Occurrence) : Run := ⟨[o], t, none⟩

def andThen (r : Run) (next : Tables → Run) : Run :=
  match r.failure with
  | some _ => r
  | none =>
      let n := next r.tables
      ⟨r.occurrences ++ n.occurrences, n.tables, n.failure⟩

/-- Encloses a run in a step. The step is left also when the run fails. -/
def within (id : Int) (r : Run) : Run :=
  ⟨.stepEntered id :: (r.occurrences ++ [.stepLeft]), r.tables, r.failure⟩

end Run

def Declaration.run (t : Tables) (d : Declaration) : Run :=
  match d.value.eval t with
  | .error e => .failed t (.evaluation e)
  | .ok value => .noted (t.bind d.name value) (.bound d.keyword d.name value)

def runDeclarations (t : Tables) : List Declaration → Run
  | [] => .done t
  | d :: rest => (d.run t).andThen fun t => runDeclarations t rest

/-- Dispatches a command and records its result. A command that is not registered, or answers with
nothing, counts as unknown. -/
def runCommand (registry : Registry) (t : Tables) (id : Int) (name : String)
    (arguments : List Expr) : Run :=
  match Expr.evalAll t arguments with
  | .error e => .failed t (.evaluation e)
  | .ok values =>
      let unknown := t.record id (.unknownCommand name)
      match registry.dispatch? name values with
      | none => ⟨[.dispatched name values, .unknown id name], unknown, none⟩
      | some reply =>
          let os := .dispatched name values :: reply.said.map .said
          match reply.outcome with
          | .result r => ⟨os, t.record id r, none⟩
          | .nothing => ⟨os ++ [.unknown id name], unknown, none⟩
          | .failed message => ⟨os, t, some (.command message)⟩

namespace Step

mutual

def run (registry : Registry) (t : Tables) : Step → Run
  | .command id name arguments _ _ => (runCommand registry t id name arguments).within id
  | .ifOnly id condition body _ _ =>
      (match condition.condition t with
        | .error e => Run.failed t (.evaluation e)
        | .ok taken => (Run.noted t (.branched taken false)).andThen fun t =>
            if taken then runAll registry t body else .done t).within id
  | .ifElse id condition body other _ _ =>
      (match condition.condition t with
        | .error e => Run.failed t (.evaluation e)
        | .ok taken => (Run.noted t (.branched taken true)).andThen fun t =>
            if taken then runAll registry t body else runAll registry t other).within id
  | .absent id _ => (Run.failed t .absentContent).within id

def runAll (registry : Registry) (t : Tables) : List Step → Run
  | [] => .done t
  | step :: rest => (run registry t step).andThen fun t => runAll registry t rest

end

end Step

def Workflow.run (registry : Registry) (t : Tables) (w : Workflow) : Run :=
  (Run.noted t (.workflowEntered w.name)).andThen fun t => Step.runAll registry t w.steps

def runWorkflows (registry : Registry) (t : Tables) : List Workflow → Run
  | [] => .done t
  | w :: rest => (w.run registry t).andThen fun t => runWorkflows registry t rest

def Program.run (registry : Registry) (t : Tables) (p : Program) : Run :=
  (runDeclarations t p.declarations).andThen fun t => runWorkflows registry t p.workflows

structure Executor where
  registry : Registry
  tables : Tables
  position : Position
  events : List Event

structure Execution where
  executor : Executor
  events : List Event
  failure : Option Failure
  journal : List JournalEntry

namespace Executor

def fresh (registry : Registry) : Executor := ⟨registry, .empty, .start, []⟩

def startEntry (p : Program) : JournalEntry :=
  let declared := p.declarations.length
  let workflows := p.workflows.length
  ⟨.info, .execution, s!"Program started: variables={declared} workflows={workflows}"⟩

def endEntry (r : Run) : List JournalEntry :=
  let completed := r.tables.results.size
  match r.failure with
  | none => [⟨.info, .execution, s!"Program finished: steps_completed={completed}"⟩]
  | some f =>
      let message := f.message
      if f.isReported then
        [⟨.error, .execution, s!"Program failed: error={message} steps_completed={completed}"⟩]
      else []

def execute (x : Executor) (p : Program) : Execution :=
  let r := p.run x.registry x.tables
  let events := x.position.events r.occurrences
  ⟨⟨x.registry, r.tables, x.position.afterAll r.occurrences, x.events ++ events⟩, events, r.failure,
    startEntry p :: (r.occurrences.flatMap Occurrence.journal ++ endEntry r)⟩

end Executor
end Stepwise
