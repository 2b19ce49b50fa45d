import Stepwise.Binary64.Shortest
import Stepwise.Json
import Stepwise.Text.Quoted

/-! JSON text in ASCII, on one line or laid out by two blanks a level. Characters beyond the basic
plane are written as two sixteen-bit units. -/
namespace Stepwise.Json
open Text

def unitChars (n : Nat) : List Char := ['\\', 'u'] ++ hex 4 n

def escapeChars (c : Char) : List Char :=
  if c = '"' then ['\\', '"']
  else if c = '\\' then ['\\', '\\']
  else if c = '\n' then ['\\', 'n']
  else if c = '\r' then ['\\', 'r']
  else if c = '\t' then ['\\', 't']
  else if c = '\x08' then ['\\', 'b']
  else if c = '\x0c' then ['\\', 'f']
  else if 0x20 ≤ c.toNat ∧ c.toNat < 0x7f then [c]
  else if c.toNat < 0x10000 then unitChars c.toNat
  else
    unitChars (0xd800 + (c.toNat - 0x10000) / 0x400) ++
      unitChars (0xdc00 + (c.toNat - 0x10000) % 0x400)

def stringChars (s : String) : List Char := ['"'] ++ s.toList.flatMap escapeChars ++ ['"']

def numberNames : Binary64.Names := ⟨"Infinity", "NaN"⟩

def gap : Option Nat → List Char
  | none => []
  | some depth => '\n' :: List.replicate (2 * depth) ' '

def separator : Option Nat → List Char
  | none => [',', ' ']
  | depth => ',' :: gap depth

mutual

def chars (depth : Option Nat) : Json → List Char
  | .null => ['n', 'u', 'l', 'l']
  | .bool true => ['t', 'r', 'u', 'e']
  | .bool false => ['f', 'a', 'l', 's', 'e']
  | .integer value => (toString value).toList
  | .number value => (value.general numberNames).toList
  | .string value => stringChars value
  | .array [] => ['[', ']']
  | .array (x :: xs) =>
      let inner := depth.map (· + 1)
      ['['] ++ gap inner ++ chars inner x ++ itemChars inner xs ++ gap depth ++ [']']
  | .object [] => ['\x7b', '\x7d']
  | .object ((name, x) :: rest) =>
      let inner := depth.map (· + 1)
      ['\x7b'] ++ gap inner ++ stringChars name ++ [':', ' '] ++ chars inner x ++
        memberChars inner rest ++ gap depth ++ ['\x7d']

def itemChars (inner : Option Nat) : List Json → List Char
  | [] => []
  | x :: xs => separator inner ++ chars inner x ++ itemChars inner xs

def memberChars (inner : Option Nat) : List (String × Json) → List Char
  | [] => []
  | (name, x) :: rest =>
      separator inner ++ stringChars name ++ [':', ' '] ++ chars inner x ++ memberChars inner rest

end

def line (value : Json) : String := String.ofList (value.chars none)

def document (value : Json) : String := String.ofList (value.chars (some 0))

end Stepwise.Json
