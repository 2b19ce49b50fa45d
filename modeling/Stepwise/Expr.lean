import Stepwise.Binary64.Shortest

/-! Expressions of the workflow language, what they refer to, and their text. -/
namespace Stepwise

/-- A missing line means that the node was not read from text. `absent` fills a place where no
expression was supplied; text never yields it. -/
inductive Expr where
  | text (value : String) (line : Option Nat)
  | number (value : Binary64) (line : Option Nat)
  | name (name : String) (line : Option Nat)
  | binary (left : Expr) (operator : String) (right : Expr) (line : Option Nat)
  | property (object : Expr) (name : String) (line : Option Nat)
  | result (step : Int) (property : Option String) (line : Option Nat)
  | absent
  deriving DecidableEq, Repr

instance : Inhabited Expr := ⟨.absent⟩

structure Reference where
  step : Int
  property : Option String
  line : Option Nat
  deriving DecidableEq, Repr

structure Mention where
  name : String
  line : Option Nat
  deriving DecidableEq, Repr

namespace Expr

def references : Expr → List Reference
  | .result step part line => [⟨step, part, line⟩]
  | .binary left _ right _ => left.references ++ right.references
  | .property object _ _ => object.references
  | _ => []

theorem referencesResult {step : Int} {part : Option String} {line : Option Nat} {r : Reference} :
    r ∈ (Expr.result step part line).references ↔ r = ⟨step, part, line⟩ := by
  simp only [references, List.mem_singleton]

def mentions : Expr → List Mention
  | .name word line => [⟨word, line⟩]
  | .binary left _ right _ => left.mentions ++ right.mentions
  | .property object _ _ => object.mentions
  | _ => []

theorem mentionsName {word : String} {line : Option Nat} {m : Mention} :
    m ∈ (Expr.name word line).mentions ↔ m = ⟨word, line⟩ := by
  simp only [mentions, List.mem_singleton]

def render? : Expr → Option String
  | .text value _ => some ("\"" ++ value ++ "\"")
  | .number value _ => some value.plain
  | .name word _ => some word
  | .binary left operator right _ => do
      let a ← left.render?
      let b ← right.render?
      some (a ++ " " ++ operator ++ " " ++ b)
  | .property object part _ => do
      let a ← object.render?
      some (a ++ "." ++ part)
  | .result step part _ =>
      let suffix := match part with
        | some word => if word = "" then "" else "." ++ word
        | none => ""
      some ("step " ++ toString step ++ suffix)
  | .absent => none

def bare : Expr → Expr
  | .text value _ => .text value none
  | .number value _ => .number value none
  | .name word _ => .name word none
  | .binary left operator right _ => .binary left.bare operator right.bare none
  | .property object part _ => .property object.bare part none
  | .result step part _ => .result step part none
  | .absent => .absent

end Expr
end Stepwise
