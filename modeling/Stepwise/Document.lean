import Stepwise.Execution
import Stepwise.Json.Written

/-! A run as a JSON value: its trace, the results by step, and the message of its failure. -/
namespace Stepwise

def Event.toJson (e : Event) : Json :=
  .object ([("eventType", .string e.kind.label), ("message", .string e.message)] ++
    (e.workflow.map fun w => ("workflow", .string w)).toList ++
    (e.step.map fun s => ("stepId", .integer s)).toList)

def StepResult.toJson (r : StepResult) : Json :=
  .object [("success", .bool r.success), ("data", .string r.data), ("status", .integer r.status),
    ("message", .string r.message)]

def Tables.resultsJson (t : Tables) : Json :=
  .object (t.results.entries.map fun e => (toString e.1, e.2.toJson))

def Executor.document (x : Executor) (failure : Option Failure) : Json :=
  .object [("trace", .array (x.events.map Event.toJson)), ("steps", x.tables.resultsJson),
    ("error", failure.elim .null fun f => .string f.message)]

def Execution.document (x : Execution) : Json := x.executor.document x.failure

end Stepwise
