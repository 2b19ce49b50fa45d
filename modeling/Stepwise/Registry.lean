import Stepwise.Journal
import Stepwise.Tables

/-! Commands by name. A command is a function of its arguments: it says some lines, and answers with
a result, with nothing, or by failing. -/
namespace Stepwise

inductive CommandOutcome where
  | result (r : StepResult)
  | nothing
  | failed (message : String)
  deriving DecidableEq, Repr

structure Reply where
  said : List String
  outcome : CommandOutcome
  deriving DecidableEq, Repr

abbrev Handler := List String → Reply

abbrev Registry := Table String Handler

namespace Registry

def dispatch? (r : Registry) (name : String) (arguments : List String) : Option Reply :=
  (r.get? name).map fun handler => handler arguments

def replacement (r : Registry) (name : String) : List JournalEntry :=
  if r.contains name then [⟨.debug, .registry, "Replacing handler for command " ++ name⟩] else []

def names (r : Registry) : List String := r.keys.mergeSort fun a b => decide (a ≤ b)

def without (r : Registry) (names : List String) : Registry :=
  names.foldl (fun r name => r.erase name) r

end Registry
end Stepwise
