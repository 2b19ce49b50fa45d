import Stepwise.Binary64

/-! Values of settings files. Numbers written without point and exponent are integers of any size.
Members keep their order, and no member name occurs twice in what the reader produces. -/
namespace Stepwise

inductive Json where
  | null
  | bool (value : Bool)
  | integer (value : Int)
  | number (value : Binary64)
  | string (value : String)
  | array (items : List Json)
  | object (members : List (String × Json))
  deriving Repr

namespace Json

instance : Inhabited Json := ⟨.null⟩

def kindName : Json → String
  | .null => "NoneType"
  | .bool _ => "bool"
  | .integer _ => "int"
  | .number _ => "float"
  | .string _ => "str"
  | .array _ => "list"
  | .object _ => "dict"

def isSet : Json → Bool
  | .null => false
  | .bool value => value
  | .integer value => value != 0
  | .number value => !value.same .zero
  | .string value => value != ""
  | .array items => !items.isEmpty
  | .object members => !members.isEmpty

def memberD (members : List (String × Json)) (name : String) (fallback : Json) : Json :=
  (members.lookup name).getD fallback

/-- Writes a member: in place if there is one of the name, at the end if not. -/
def putMember (name : String) (value : Json) : List (String × Json) → List (String × Json)
  | [] => [(name, value)]
  | member :: rest =>
      if member.1 = name then (name, value) :: rest else member :: putMember name value rest

def units? : Json → Option Int
  | .bool value => some (if value then twoTo 1074 else 0)
  | .integer value => some (value * twoTo 1074)
  | .number value => value.units?
  | _ => none

mutual

def alike : Json → Json → Bool
  | .null, .null => true
  | .string a, .string b => a == b
  | .array xs, .array ys => allAlike xs ys
  | .object ms, .object ns => ms.length == ns.length && membersAlike ms ns
  | .number a, .number b => a == b || a.same b
  | a, b => a.units?.isSome && a.units? == b.units?

def allAlike : List Json → List Json → Bool
  | [], [] => true
  | x :: xs, y :: ys => alike x y && allAlike xs ys
  | _, _ => false

def membersAlike : List (String × Json) → List (String × Json) → Bool
  | [], _ => true
  | (name, value) :: rest, others =>
      (match others.lookup name with
        | some other => alike value other
        | none => false) && membersAlike rest others

end

end Json
end Stepwise
