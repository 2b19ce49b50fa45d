import Stepwise.Journal
import Stepwise.Text.Quoted

/-! What happens in a run, and how a trace shows it. An event carries the workflow and the step that
are current when it is recorded, and is indented by how deep that step lies. -/
namespace Stepwise

inductive Occurrence where
  | bound (keyword name value : String)
  | workflowEntered (name : String)
  | stepEntered (id : Int)
  | stepLeft
  | dispatched (name : String) (arguments : List String)
  | said (line : String)
  | unknown (id : Int) (name : String)
  | branched (taken hasElse : Bool)
  deriving DecidableEq, Repr

inductive EventKind where
  | bound | workflowStart | stepStart | dispatch | output | unknown | branch
  deriving DecidableEq, Repr

def EventKind.label : EventKind → String
  | .bound => "variable.bound"
  | .workflowStart => "workflow.start"
  | .stepStart => "step.start"
  | .dispatch => "command.dispatch"
  | .output => "command.output"
  | .unknown => "command.unknown"
  | .branch => "branch.taken"

structure Event where
  kind : EventKind
  message : String
  workflow : Option String
  step : Option Int
  depth : Nat
  deriving DecidableEq, Repr

def Event.line (e : Event) : String :=
  String.ofList (List.replicate (2 * e.depth) ' ') ++ e.message

/-- The kind and the message of the event that an occurrence makes; leaving a step makes none. -/
def Occurrence.shown? : Occurrence → Option (EventKind × String)
  | .bound keyword name value => some (.bound, s!"Variable '{name}' = '{value}' ({keyword})")
  | .workflowEntered name => some (.workflowStart, s!"Executing workflow: {name}")
  | .stepEntered id => some (.stepStart, s!"Step {id}:")
  | .stepLeft => none
  | .dispatched name arguments =>
      let rendered := ", ".intercalate (arguments.map Text.quoted)
      some (.dispatch, s!"Command: {name}({rendered})")
  | .said line => some (.output, line)
  | .unknown _ name => some (.unknown, s!"Unknown command: {name}")
  | .branched true _ => some (.branch, "Condition is true, executing if block")
  | .branched false true => some (.branch, "Condition is false, executing else block")
  | .branched false false => some (.branch, "Condition is false, skipping")

def Occurrence.entry? (o : Occurrence) : Option JournalEntry :=
  o.shown?.map fun e => ⟨.debug, .trace, e.1.label ++ ": " ++ e.2⟩

def Occurrence.journal (o : Occurrence) : List JournalEntry :=
  let alert : List JournalEntry := match o with
    | .unknown id name => [⟨.warning, .execution, s!"Unknown command: step_id={id} command={name}"⟩]
    | _ => []
  alert ++ o.entry?.toList

structure Position where
  workflow : Option String
  step : Option Int
  depth : Nat
  deriving DecidableEq, Repr

namespace Position

def start : Position := ⟨none, none, 0⟩

def after (p : Position) : Occurrence → Position
  | .workflowEntered name => ⟨some name, none, 0⟩
  | .stepEntered id => ⟨p.workflow, some id, p.depth + 1⟩
  | .stepLeft => ⟨p.workflow, p.step, p.depth - 1⟩
  | _ => p

def depthOf (p : Position) : EventKind → Nat
  | .bound => 0
  | .workflowStart | .stepStart => p.depth
  | .dispatch | .output | .unknown | .branch => p.depth + 1

/-- The events of some occurrences. Each is recorded after the position has followed its
occurrence. -/
def events (p : Position) : List Occurrence → List Event
  | [] => []
  | o :: rest =>
      let q := p.after o
      (o.shown?.map fun e => ⟨e.1, e.2, q.workflow, q.step, q.depthOf e.1⟩).toList ++ q.events rest

def afterAll (p : Position) (os : List Occurrence) : Position := os.foldl after p

end Position

def eventLines (events : List Event) : String := String.join (events.map fun e => e.line ++ "\n")

end Stepwise
