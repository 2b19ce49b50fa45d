import Stepwise.Expr
import Stepwise.Numeral
import Stepwise.Tables

/-! The value of an expression, which is text, and the truth of a condition. Operands are evaluated
from left to right before their operator is looked at. -/
namespace Stepwise

inductive EvalError where
  | undefinedVariable (name : String)
  | stepNotFound (step : Int)
  | notAnExpression
  | unknownOperator (operator expression : String)
  | notRenderable
  deriving DecidableEq, Repr

namespace EvalError

def message : EvalError → String
  | .undefinedVariable name => "Undefined variable: " ++ name
  | .stepNotFound step => s!"Step {step} not found"
  | .notAnExpression =>
      "Evaluation error: Unknown expression type: NoneType (expression: None)"
  | .unknownOperator operator expression =>
      s!"Evaluation error: Unknown binary operator: {operator} (expression: {expression})"
  | .notRenderable => "Unknown expression node: NoneType"

def isReported : EvalError → Bool
  | .notRenderable => false
  | _ => true

end EvalError

inductive Comparison where
  | equal | notEqual | greater | less | greaterEqual | lessEqual
  deriving DecidableEq, Repr

namespace Comparison

def all : List Comparison := [.equal, .notEqual, .greater, .less, .greaterEqual, .lessEqual]

def symbol : Comparison → String
  | .equal => "=="
  | .notEqual => "!="
  | .greater => ">"
  | .less => "<"
  | .greaterEqual => ">="
  | .lessEqual => "<="

def ofSymbol? (symbol : String) : Option Comparison := all.find? (·.symbol = symbol)

def holds (c : Comparison) (left right : String) : Bool :=
  let x := Numeral.ofValue left
  let y := Numeral.ofValue right
  match c with
  | .equal => left == right
  | .notEqual => left != right
  | .greater => y.lt x
  | .less => x.lt y
  | .greaterEqual => y.le x
  | .lessEqual => x.le y

end Comparison

def falseValues : List String := ["", "0", "false"]

def isTruthy (value : String) : Bool := value ∉ falseValues

def compare (left operator right : String) : Except EvalError Bool :=
  match Comparison.ofSymbol? operator with
  | some c => .ok (c.holds left right)
  | none =>
      .error (.unknownOperator operator
        (Text.quoted left ++ " " ++ operator ++ " " ++ Text.quoted right))

namespace Expr

def eval (t : Tables) : Expr → Except EvalError String
  | .text value _ => .ok value
  | .number value _ => .ok value.plain
  | .name word _ =>
      match t.environment.get? word with
      | some value => .ok value
      | none => .error (.undefinedVariable word)
  | .binary left operator right line =>
      match left.eval t with
      | .error e => .error e
      | .ok a =>
          match right.eval t with
          | .error e => .error e
          | .ok b =>
              if operator = "+" then .ok (a ++ b)
              else match (Expr.binary left operator right line).render? with
                | some expression => .error (.unknownOperator operator expression)
                | none => .error .notRenderable
  | .property object part _ =>
      match object.eval t with
      | .error e => .error e
      | .ok a => .ok (a ++ "." ++ part)
  | .result step part _ =>
      match t.results.get? step with
      | some r => .ok (r.get part)
      | none => .error (.stepNotFound step)
  | .absent => .error .notAnExpression

theorem evalPropertyOk {t object part line value}
    (h : (Expr.property object part line).eval t = .ok value) : ∃ a, object.eval t = .ok a := by
  unfold eval at h
  cases ha : object.eval t with
  | error x => simp [ha] at h
  | ok a => exact ⟨a, rfl⟩

theorem evalPropertyError {t object part line x}
    (h : (Expr.property object part line).eval t = .error x) : object.eval t = .error x := by
  unfold eval at h
  cases ha : object.eval t with
  | error y => simpa only [ha] using h
  | ok a => simp [ha] at h

/-- A comparison at the top decides by its operands; any other expression by its value. -/
def condition (t : Tables) (e : Expr) : Except EvalError Bool :=
  let byValue := (e.eval t).map isTruthy
  match e with
  | .binary left operator right _ =>
      match Comparison.ofSymbol? operator with
      | some c => do
          let a ← left.eval t
          let b ← right.eval t
          return c.holds a b
      | none => byValue
  | _ => byValue

def evalAll (t : Tables) : List Expr → Except EvalError (List String)
  | [] => .ok []
  | e :: rest => do
      let value ← e.eval t
      let values ← evalAll t rest
      return value :: values

end Expr
end Stepwise
