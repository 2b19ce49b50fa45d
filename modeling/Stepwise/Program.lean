import Stepwise.Expr

/-! Programs: variable declarations and workflows of numbered steps, and the order in which their
steps are walked. Numbers are given, not assigned, and need not be distinct. -/
namespace Stepwise

/-- A step is a command or a conditional, the latter with or without an `else` clause; an `else`
clause may be empty. `absent` is a step that was supplied without content; text never yields it.
Lines are those of the step and of its content. -/
inductive Step where
  | command (id : Int) (name : String) (arguments : List Expr) (line contentLine : Option Nat)
  | ifOnly (id : Int) (condition : Expr) (body : List Step) (line contentLine : Option Nat)
  | ifElse (id : Int) (condition : Expr) (body other : List Step) (line contentLine : Option Nat)
  | absent (id : Int) (line : Option Nat)
  deriving Repr

instance : Inhabited Step := ⟨.absent 0 none⟩

structure Declaration where
  keyword : String
  name : String
  value : Expr
  line : Option Nat
  deriving DecidableEq, Repr

structure Workflow where
  name : String
  steps : List Step
  line : Option Nat
  deriving Repr

structure Program where
  declarations : List Declaration
  workflows : List Workflow
  line : Option Nat
  deriving Repr

namespace Step

def id : Step → Int
  | .command id .. | .ifOnly id .. | .ifElse id .. | .absent id _ => id

def line : Step → Option Nat
  | .command _ _ _ line _ | .ifOnly _ _ _ line _ | .ifElse _ _ _ _ line _ | .absent _ line => line

def expressions : Step → List Expr
  | .command _ _ arguments _ _ => arguments
  | .ifOnly _ condition .. | .ifElse _ condition .. => [condition]
  | .absent .. => []

def isAbsent : Step → Bool
  | .absent .. => true
  | _ => false

mutual

/-- A step and all steps within it: a conditional first, then its body, then its `else` clause. -/
def walk : Step → List Step
  | .ifOnly id condition body line contentLine =>
      .ifOnly id condition body line contentLine :: walkAll body
  | .ifElse id condition body other line contentLine =>
      .ifElse id condition body other line contentLine :: (walkAll body ++ walkAll other)
  | .command id name arguments line contentLine => [.command id name arguments line contentLine]
  | .absent id line => [.absent id line]

def walkAll : List Step → List Step
  | [] => []
  | step :: rest => walk step ++ walkAll rest

end

mutual

def same : Step → Step → Bool
  | .command i name arguments _ _, .command j name' arguments' _ _ =>
      i == j && name == name' && arguments.map Expr.bare == arguments'.map Expr.bare
  | .ifOnly i condition body _ _, .ifOnly j condition' body' _ _ =>
      i == j && condition.bare == condition'.bare && sameAll body body'
  | .ifElse i condition body other _ _, .ifElse j condition' body' other' _ _ =>
      i == j && condition.bare == condition'.bare && sameAll body body' && sameAll other other'
  | .absent i _, .absent j _ => i == j
  | _, _ => false

def sameAll : List Step → List Step → Bool
  | [], [] => true
  | a :: as, b :: bs => same a b && sameAll as bs
  | _, _ => false

end

end Step

def Declaration.same (a b : Declaration) : Bool :=
  a.keyword == b.keyword && a.name == b.name && a.value.bare == b.value.bare

def Workflow.same (a b : Workflow) : Bool := a.name == b.name && Step.sameAll a.steps b.steps

namespace Program

def walk (p : Program) : List (Workflow × Step) :=
  p.workflows.flatMap fun w => (Step.walkAll w.steps).map fun s => (w, s)

def find? (p : Program) (name : String) : Option Workflow := p.workflows.find? (·.name = name)

def same (a b : Program) : Bool :=
  a.declarations.length == b.declarations.length && a.workflows.length == b.workflows.length &&
    (a.declarations.zip b.declarations).all (fun pair => pair.1.same pair.2) &&
    (a.workflows.zip b.workflows).all (fun pair => pair.1.same pair.2)

end Program
end Stepwise
