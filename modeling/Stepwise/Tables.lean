import Stepwise.Table

/-! What a run leaves behind: the values of the variables and the results of the steps. -/
namespace Stepwise

structure StepResult where
  success : Bool
  data : String
  status : Int
  message : String
  deriving DecidableEq, Repr

namespace StepResult

def okStatus : Int := 200
def unknownStatus : Int := 400

def ok (data message : String) : StepResult := ⟨true, data, okStatus, message⟩

def unknownCommand (name : String) : StepResult :=
  ⟨false, "", unknownStatus, "Unknown command: " ++ name⟩

def get (r : StepResult) (property : Option String) : String :=
  if property = some "status" then toString r.status
  else if property = some "message" then r.message
  else if property = some "success" then (if r.success then "true" else "false")
  else r.data

end StepResult

structure Tables where
  environment : Table String String
  results : Table Int StepResult

namespace Tables

def empty : Tables := ⟨.empty, .empty⟩

def bind (t : Tables) (name value : String) : Tables :=
  { t with environment := t.environment.put name value }

def record (t : Tables) (step : Int) (result : StepResult) : Tables :=
  { t with results := t.results.put step result }

end Tables
end Stepwise
