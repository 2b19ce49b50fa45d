import Stepwise.Program
import Stepwise.Simulation

/-! Findings about a program before it runs. Each is attached to the declaration, the workflow or the
step that it is about; a step is given by its place in the walk of the program. -/
namespace Stepwise

structure Report (α : Type) where
  errors : List α
  warnings : List α
  deriving Repr

namespace Report

variable {α : Type}

def empty : Report α := ⟨[], []⟩

def isValid (r : Report α) : Bool := r.errors.isEmpty

def addError (r : Report α) (x : α) : Report α := { r with errors := r.errors ++ [x] }

def addWarning (r : Report α) (x : α) : Report α := { r with warnings := r.warnings ++ [x] }

def promote (r : Report α) : Report α := ⟨r.errors ++ r.warnings, []⟩

end Report

structure Remark where
  message : String
  line : Option Nat
  deriving DecidableEq, Repr

def Remark.shown (r : Remark) : String :=
  r.message ++ r.line.elim "" fun line => s!" at line {line}"

inductive Subject where
  | declaration (index : Nat)
  | workflow (index : Nat)
  | step (place : Nat)
  deriving DecidableEq, Repr

inductive FindingCause where
  | duplicateStep (id : Int) (workflow first : String)
  | usedBeforeDeclared (variableName used : String)
  | stepBeforeRun (variableName : String) (step : Int)
  | emptyWorkflow (workflow : String)
  | unknownCommand (command : String) (id : Int) (workflow : String)
  | undeclared (id : Int) (workflow variableName : String)
  | missingStep (id : Int) (workflow : String) (target : Int)
  | ownResult (id : Int) (workflow : String)
  | futureStep (id : Int) (workflow : String) (target : Int)
  deriving DecidableEq, Repr

namespace FindingCause

def isError : FindingCause → Bool
  | .usedBeforeDeclared .. | .stepBeforeRun .. | .undeclared .. | .missingStep .. | .ownResult .. =>
      true
  | .duplicateStep .. | .emptyWorkflow .. | .unknownCommand .. | .futureStep .. => false

def stepIn (id : Int) (workflow : String) : String := s!"Step {id} in workflow \"{workflow}\""

def message : FindingCause → String
  | .duplicateStep id workflow first =>
      s!"Duplicate step number {id} in workflow \"{workflow}\" (first declared in workflow " ++
        s!"\"{first}\"); later results overwrite earlier ones"
  | .usedBeforeDeclared variableName used =>
      s!"Variable '{variableName}' uses '{used}' before it is declared"
  | .stepBeforeRun variableName step =>
      s!"Variable '{variableName}' references step {step} before any step has run"
  | .emptyWorkflow workflow => s!"Workflow \"{workflow}\" has no steps"
  | .unknownCommand command id workflow =>
      s!"Unknown command \"{command}\" in step {id} of workflow \"{workflow}\""
  | .undeclared id workflow variableName =>
      stepIn id workflow ++ s!" uses undeclared variable '{variableName}'"
  | .missingStep id workflow target =>
      stepIn id workflow ++ s!" references non-existent step {target}"
  | .ownResult id workflow => stepIn id workflow ++ " references itself"
  | .futureStep id workflow target => stepIn id workflow ++ s!" references future step {target}"

end FindingCause

structure Finding where
  subject : Subject
  cause : FindingCause
  line : Option Nat
  deriving DecidableEq, Repr

def Finding.remark (f : Finding) : Remark := ⟨f.cause.message, f.line⟩

namespace Program

def firstPlace? (p : Program) (id : Int) : Option Nat := p.walk.findIdx? (·.2.id = id)

def duplicateFindings (p : Program) : List Finding :=
  p.walk.zipIdx.filterMap fun found =>
    let place := found.2
    match p.walk.find? (·.2.id = found.1.2.id), p.firstPlace? found.1.2.id with
    | some first, some firstPlace =>
        if firstPlace < place then
          some ⟨.step place, .duplicateStep found.1.2.id found.1.1.name first.1.name, found.1.2.line⟩
        else none
    | _, _ => none

def declarationFindings (p : Program) : List Finding :=
  p.declarations.zipIdx.flatMap fun found =>
    let d := found.1
    let before := (p.declarations.take found.2).map Declaration.name
    let unbound := d.value.mentions.filter fun m => m.name ∉ before
    unbound.map (fun m =>
      ⟨.declaration found.2, .usedBeforeDeclared d.name m.name, m.line <|> d.line⟩) ++
    d.value.references.map fun r =>
      ⟨.declaration found.2, .stepBeforeRun d.name r.step, r.line <|> d.line⟩

def emptyFindings (p : Program) : List Finding :=
  p.workflows.zipIdx.filterMap fun found =>
    if found.1.steps.isEmpty then
      some ⟨.workflow found.2, .emptyWorkflow found.1.name, found.1.line⟩
    else none

/-- A reference from the step at a place: to a step that there is not, to itself, or to a later
one. -/
def referenceCause? (p : Program) (place : Nat) (id : Int) (workflow : String) (target : Int) :
    Option FindingCause :=
  match p.firstPlace? target with
  | none => some (.missingStep id workflow target)
  | some found =>
      if found = place then some (.ownResult id workflow)
      else if place < found then some (.futureStep id workflow target)
      else none

def expressionFindings (p : Program) (place : Nat) (w : Workflow) (s : Step) (e : Expr) :
    List Finding :=
  let declared := p.declarations.map Declaration.name
  let undeclared := e.mentions.filter fun m => m.name ∉ declared
  undeclared.map (fun m => ⟨.step place, .undeclared s.id w.name m.name, m.line <|> s.line⟩) ++
  e.references.filterMap fun r =>
    (p.referenceCause? place s.id w.name r.step).map fun cause => ⟨.step place, cause, s.line⟩

def commandFindings (commands : List String) (place : Nat) (w : Workflow) : Step → List Finding
  | .command id name _ line _ =>
      if name ∈ commands then [] else [⟨.step place, .unknownCommand name id w.name, line⟩]
  | _ => []

def stepFindings (p : Program) (commands : List String) : List Finding :=
  p.walk.zipIdx.flatMap fun found =>
    commandFindings commands found.2 found.1.1 found.1.2 ++
    found.1.2.expressions.flatMap (p.expressionFindings found.2 found.1.1 found.1.2)

def findings (p : Program) (commands : List String) : List Finding :=
  p.duplicateFindings ++ p.declarationFindings ++ p.emptyFindings ++ p.stepFindings commands

def review? (p : Program) (commands : List String) : Option (Report Finding) :=
  if p.walk.any fun found => found.2.isAbsent then none
  else
    let all := p.findings commands
    some ⟨all.filter fun f => f.cause.isError, all.filter fun f => !f.cause.isError⟩

/-- A review under settings, which may make every warning an error. -/
def reviewUnder? (p : Program) (settings : ReviewSettings) (registry : Registry) :
    Option (Report Finding) :=
  (p.review? registry.names).map fun report =>
    if settings.warningsAsErrors.isSet then report.promote else report

end Program
end Stepwise
