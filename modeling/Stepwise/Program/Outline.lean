import Stepwise.Program

/-! One line of plain words for every step. -/
namespace Stepwise

def purposes : List (String × String) :=
  [("input", "Collect user input"), ("generate", "Generate AI content"),
   ("output", "Export results"), ("fetch", "Fetch data from URL"),
   ("transform", "Transform data"), ("validate", "Validate input"),
   ("send_email", "Send email"), ("notify", "Send notification"),
   ("print", "Print message"), ("log", "Log message")]

def Step.outline? : Step → Option String
  | .command id name .. =>
      let purpose := (purposes.lookup name).getD ("Execute " ++ name)
      some s!"Step {id}: {purpose}"
  | .ifOnly id .. | .ifElse id .. => some s!"Step {id}: Conditional logic"
  | .absent .. => none

def Workflow.outline? (w : Workflow) : Option (List String) :=
  (Step.walkAll w.steps).mapM Step.outline?

def Program.outline? (p : Program) : Option (List String) := p.walk.mapM fun s => s.2.outline?

end Stepwise
