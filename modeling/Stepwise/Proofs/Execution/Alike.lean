import Stepwise.Proofs.Execution.Visits
import Stepwise.Proofs.Expr.Reads

/-! Runs on tables that differ in the order of their entries at most. What is found under a name or a
number is all that a run asks of its tables, so the same occurs on both, and what is left behind
differs in the order of its entries at most. -/
namespace Stepwise

/- Tables in which the same is found under every name and every number. -/
structure Tables.Alike (t u : Tables) : Prop where
  environment : ∀ name, t.environment.get? name = u.environment.get? name
  results : ∀ id, t.results.get? id = u.results.get? id

namespace Tables.Alike

variable {t u : Tables}

theorem bind (h : Alike t u) (name value : String) : Alike (t.bind name value) (u.bind name value) where
  environment other := by
    simp only [Tables.bind, Table.getPut, h.environment]
  results := h.results

theorem record (h : Alike t u) (id : Int) (result : StepResult) :
    Alike (t.record id result) (u.record id result) where
  environment := h.environment
  results other := by
    simp only [Tables.record, Table.getPut, h.results]

theorem sameReads (h : Alike t u) (e : Expr) : Expr.SameReads t u e :=
  ⟨fun m _ => h.environment m.name, fun r _ => h.results r.step⟩

end Tables.Alike

/- Registries in which the same command is found under every name. -/
def Registry.Alike (registry other : Registry) : Prop :=
  ∀ name, registry.get? name = other.get? name

theorem Registry.Alike.dispatch {registry other : Registry} (same : registry.Alike other)
    (name : String) (values : List String) :
    registry.dispatch? name values = other.dispatch? name values := by
  unfold dispatch?
  rw [same name]

/- The same occurs in both runs, and both end the same way, on tables that are alike. -/
structure Run.Agrees (r other : Run) : Prop where
  occurrences : r.occurrences = other.occurrences
  failure : r.failure = other.failure
  tables : Tables.Alike r.tables other.tables

def InStep (part other : Tables → Run) : Prop :=
  ∀ t u, Tables.Alike t u → (part t).Agrees (other u)

namespace InStep

variable {part other next later : Tables → Run}

theorem still (os : List Occurrence) (f : Option Failure) :
    InStep (fun t => ⟨os, t, f⟩) fun t => ⟨os, t, f⟩ := fun _ _ alike => ⟨rfl, rfl, alike⟩

theorem within (h : InStep part other) (id : Int) :
    InStep (fun t => (part t).within id) fun t => (other t).within id := fun t u alike =>
  have inner := h t u alike
  ⟨by simp only [Run.within, inner.occurrences], inner.failure, inner.tables⟩

theorem andThen (h : InStep part other) (k : InStep next later) :
    InStep (fun t => (part t).andThen next) fun t => (other t).andThen later := by
  intro t u alike
  have front := h t u alike
  change ((part t).andThen next).Agrees ((other u).andThen later)
  cases first : (part t).failure with
  | some f =>
    rw [Run.andThenStopped first, Run.andThenStopped (front.failure.symm.trans first)]
    exact front
  | none =>
    have back := k _ _ front.tables
    rw [Run.andThenDone first, Run.andThenDone (front.failure.symm.trans first)]
    exact ⟨by rw [front.occurrences, back.occurrences], back.failure, back.tables⟩

end InStep

variable {registry other : Registry}

theorem commandInStep (same : registry.Alike other) (id : Int) (name : String)
    (arguments : List Expr) : InStep (fun t => runCommand registry t id name arguments)
      fun t => runCommand other t id name arguments := by
  intro t u alike
  change (runCommand registry t id name arguments).Agrees (runCommand other u id name arguments)
  unfold runCommand
  rw [Expr.evalAllCongr fun e _ => alike.sameReads e]
  cases Expr.evalAll u arguments with
  | error x => exact ⟨rfl, rfl, alike⟩
  | ok values =>
    dsimp only
    rw [same.dispatch name values]
    cases other.dispatch? name values with
    | none => exact ⟨rfl, rfl, alike.record id _⟩
    | some reply =>
      obtain ⟨said, outcome⟩ := reply
      cases outcome with
      | result r => exact ⟨rfl, rfl, alike.record id r⟩
      | nothing => exact ⟨rfl, rfl, alike.record id _⟩
      | failed message => exact ⟨rfl, rfl, alike⟩

theorem conditionalInStep {s : Step} {condition : Expr} (owner : s.condition? = some condition)
    (block : ∀ taken, InStep (fun t => Step.runAll registry t (s.chosen taken))
      fun t => Step.runAll other t (s.chosen taken)) :
    InStep (fun t => s.run registry t) fun t => s.run other t := by
  simp only [Step.runConditional _ _ owner]
  refine .within (fun t u alike => ?_) s.id
  rw [Expr.conditionCongr (alike.sameReads condition)]
  cases condition.condition u with
  | error x => exact ⟨rfl, rfl, alike⟩
  | ok taken => exact InStep.andThen (.still [.branched taken s.hasElse] none) (block taken) t u alike

namespace Step

mutual

theorem inStep (same : registry.Alike other) : (s : Step) →
    InStep (fun t => s.run registry t) fun t => s.run other t
  | .command id name arguments _ _ => (commandInStep same id name arguments).within id
  | .ifOnly _ _ body _ _ => conditionalInStep rfl fun
      | true => inStepAll same body
      | false => .still [] none
  | .ifElse _ _ body alternative _ _ => conditionalInStep rfl fun
      | true => inStepAll same body
      | false => inStepAll same alternative
  | .absent id _ => (InStep.still [] (some .absentContent)).within id

theorem inStepAll (same : registry.Alike other) : (steps : List Step) →
    InStep (fun t => runAll registry t steps) fun t => runAll other t steps
  | [] => .still [] none
  | s :: rest => (inStep same s).andThen (inStepAll same rest)

end

end Step

theorem declarationInStep (d : Declaration) : InStep (fun t => d.run t) fun t => d.run t := by
  intro t u alike
  change (d.run t).Agrees (d.run u)
  unfold Declaration.run
  rw [Expr.evalCongr (alike.sameReads d.value)]
  cases d.value.eval u with
  | error x => exact ⟨rfl, rfl, alike⟩
  | ok value => exact ⟨rfl, rfl, alike.bind d.name value⟩

theorem declarationsInStep (ds : List Declaration) :
    InStep (fun t => runDeclarations t ds) fun t => runDeclarations t ds := by
  induction ds with
  | nil => exact .still [] none
  | cons d rest ih => exact (declarationInStep d).andThen ih

theorem workflowsInStep (same : registry.Alike other) (ws : List Workflow) :
    InStep (fun t => runWorkflows registry t ws) fun t => runWorkflows other t ws := by
  induction ws with
  | nil => exact .still [] none
  | cons w rest ih =>
    have first : InStep (fun t => w.run registry t) fun t => w.run other t :=
      .andThen (.still [.workflowEntered w.name] none) (Step.inStepAll same w.steps)
    exact first.andThen ih

/- With registries and on tables that are alike, a program does the same. -/
theorem Program.inStep (same : registry.Alike other) (p : Program) :
    InStep (fun t => p.run registry t) fun t => p.run other t :=
  (declarationsInStep p.declarations).andThen (workflowsInStep same p.workflows)

end Stepwise
