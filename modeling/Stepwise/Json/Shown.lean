import Stepwise.Binary64.Shortest
import Stepwise.Json
import Stepwise.Text.Quoted

/-! How a settings value reads inside a sentence: text as it is, but quoted within a list or a set of
members; truth values and the absent value by capitalised names. -/
namespace Stepwise.Json

def shownNames : Binary64.Names := ⟨"inf", "nan"⟩

mutual

def shownInside : Json → String
  | .null => "None"
  | .bool true => "True"
  | .bool false => "False"
  | .integer value => toString value
  | .number value => value.general shownNames
  | .string value => Text.quoted value
  | .array items => "[" ++ String.intercalate ", " (shownItems items) ++ "]"
  | .object members => "\x7b" ++ String.intercalate ", " (shownMembers members) ++ "\x7d"

def shownItems : List Json → List String
  | [] => []
  | x :: xs => shownInside x :: shownItems xs

def shownMembers : List (String × Json) → List String
  | [] => []
  | (name, x) :: rest => (Text.quoted name ++ ": " ++ shownInside x) :: shownMembers rest

end

def shown : Json → String
  | .string value => value
  | value => value.shownInside

end Stepwise.Json
