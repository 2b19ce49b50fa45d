import Stepwise.Json
import Stepwise.Numeral

/-! JSON text into a value, or the first fault with the place where it shows. Numbers may also be
named `NaN`, `Infinity` and `-Infinity`. A later member of a name replaces the value of an earlier
one and takes its place. -/
namespace Stepwise.Json

namespace Reading
open Text

inductive Cause where
  | valueExpected
  | nameExpected
  | colonExpected
  | commaExpected
  | unterminatedString
  | controlCharacter
  | badEscape
  | badUnit
  | extraData
  | byteOrderMark
  | longInteger (digits : Nat)
  deriving DecidableEq, Repr

structure Stop where
  cause : Cause
  rest : List Char
  deriving DecidableEq, Repr

def isLayout (c : Char) : Bool := c == ' ' || c == '\t' || c == '\n' || c == '\r'

def skip (s : List Char) : List Char := s.dropWhile isLayout

def hexValue? (c : Char) : Option Nat :=
  if isDigit c then some (c.toNat - 48)
  else if 'a' ≤ c ∧ c ≤ 'f' then some (c.toNat - 87)
  else if 'A' ≤ c ∧ c ≤ 'F' then some (c.toNat - 55)
  else none

def unit? (s : List Char) : Option Nat :=
  if 4 < s.length then
    (s.take 4).foldl (fun n c => do return 16 * (← n) + (← hexValue? c)) (some 0)
  else none

def isHighUnit (n : Nat) : Bool := 0xd800 ≤ n && n < 0xdc00
def isLowUnit (n : Nat) : Bool := 0xdc00 ≤ n && n < 0xe000

/-- The character behind `\u` and how much of the text it takes. Two units make one character if
they belong together; a unit that stands alone for half a character is replaced. -/
def escapedUnit (s : List Char) : Except Stop (Char × Nat) :=
  match unit? s with
  | none => .error ⟨.badUnit, 'u' :: s⟩
  | some high =>
      let more := s.drop 4
      if isHighUnit high ∧ 6 < more.length ∧ more.take 2 = ['\\', 'u'] then
        match unit? (more.drop 2) with
        | none => .error ⟨.badUnit, more.drop 1⟩
        | some low =>
            if isLowUnit low then
              .ok (Char.ofNat (0x10000 + (high - 0xd800) * 0x400 + (low - 0xdc00)), 10)
            else .ok ('\ufffd', 4)
      else if isHighUnit high ∨ isLowUnit high then .ok ('\ufffd', 4)
      else .ok (Char.ofNat high, 4)

def shortEscape? (c : Char) : Option Char :=
  if c = '"' ∨ c = '\\' ∨ c = '/' then some c
  else if c = 'b' then some '\x08'
  else if c = 'f' then some '\x0c'
  else if c = 'n' then some '\n'
  else if c = 'r' then some '\r'
  else if c = 't' then some '\t'
  else none

/-- Reads up to the closing mark. `opening` is the text from the opening mark on, `done` what has
been read, last character first. -/
def stringEnd (opening done : List Char) : List Char → Except Stop (String × List Char)
  | [] => .error ⟨.unterminatedString, opening⟩
  | c :: rest =>
      if c = '"' then .ok (String.ofList done.reverse, rest)
      else if c = '\\' then
        match rest with
        | [] => .error ⟨.unterminatedString, opening⟩
        | e :: rest =>
            if e = 'u' then
              match escapedUnit rest with
              | .error stop => .error stop
              | .ok (d, taken) => stringEnd opening (d :: done) (rest.drop taken)
            else match shortEscape? e with
              | some d => stringEnd opening (d :: done) rest
              | none => .error ⟨.badEscape, c :: e :: rest⟩
      else if c.toNat < 0x20 then .error ⟨.controlCharacter, c :: rest⟩
      else stringEnd opening (c :: done) rest
  termination_by s => s.length
  decreasing_by all_goals simp; try omega

def signed (negative : Bool) (n : Nat) : Int := if negative then -(n : Int) else n

def number (s : List Char) : Except Stop (Json × List Char) :=
  let negative := s.head? == some '-'
  let body := if negative then s.drop 1 else s
  let whole := if body.head? = some '0' then ['0'] else body.takeWhile isDigit
  let rest := body.drop whole.length
  let fraction := if rest.head? = some '.' then (rest.drop 1).takeWhile isDigit else []
  let rest' := if fraction = [] then rest else rest.drop (fraction.length + 1)
  let marked := rest'.head? = some 'e' ∨ rest'.head? = some 'E'
  let sign := (rest'.drop 1).head?
  let signs := if sign = some '-' ∨ sign = some '+' then 1 else 0
  let power := if marked then (rest'.drop (1 + signs)).takeWhile isDigit else []
  if whole = [] then .error ⟨.valueExpected, s⟩
  else if fraction = [] ∧ power = [] then
    if Numeral.digitLimit < whole.length then .error ⟨.longInteger whole.length, s⟩
    else .ok (.integer (signed negative (Decimal.ofDigitChars whole)), rest')
  else
    let exponent := signed (sign == some '-') (Decimal.ofDigitChars power)
    let size := Binary64.ofDecimal
      ⟨Decimal.ofDigitChars (whole ++ fraction), exponent - fraction.length⟩
    .ok (.number (if negative then size.negate else size),
      if power = [] then rest' else rest'.drop (1 + signs + power.length))

def words : List (List Char × Json) :=
  [("null".toList, .null), ("true".toList, .bool true), ("false".toList, .bool false),
   ("NaN".toList, .number .nan), ("Infinity".toList, .number (.infinite false)),
   ("-Infinity".toList, .number (.infinite true))]

def word? (s : List Char) : Option (Json × List Char) :=
  (words.find? fun w => w.1.isPrefixOf s).map fun w => (w.2, s.drop w.1.length)

mutual

/-- The value at the head of a text, with `fuel` bounding the nesting. -/
def value : Nat → List Char → Except Stop (Json × List Char)
  | 0, s => .error ⟨.valueExpected, s⟩
  | fuel + 1, s =>
      match s with
      | [] => .error ⟨.valueExpected, s⟩
      | c :: rest =>
          if c = '"' then do
            let (text, rest) ← stringEnd s [] rest
            return (.string text, rest)
          else if c = '\x7b' then
            if (skip rest).head? = some '\x7d' then .ok (.object [], (skip rest).drop 1)
            else members fuel [] (skip rest)
          else if c = '[' then
            if (skip rest).head? = some ']' then .ok (.array [], (skip rest).drop 1)
            else items fuel [] (skip rest)
          else match word? s with
            | some found => .ok found
            | none => number s

def items : Nat → List Json → List Char → Except Stop (Json × List Char)
  | 0, _, s => .error ⟨.valueExpected, s⟩
  | fuel + 1, done, s => do
      let (item, rest) ← value fuel s
      match skip rest with
      | [] => .error ⟨.commaExpected, []⟩
      | c :: rest =>
          if c = ']' then .ok (.array (item :: done).reverse, rest)
          else if c = ',' then items fuel (item :: done) (skip rest)
          else .error ⟨.commaExpected, c :: rest⟩

def members : Nat → List (String × Json) → List Char → Except Stop (Json × List Char)
  | 0, _, s => .error ⟨.nameExpected, s⟩
  | fuel + 1, done, s =>
      if s.head? = some '"' then do
        let (name, rest) ← stringEnd s [] (s.drop 1)
        let rest := skip rest
        if rest.head? = some ':' then
          let (item, rest) ← value fuel (skip (rest.drop 1))
          match skip rest with
          | [] => .error ⟨.commaExpected, []⟩
          | c :: rest =>
              if c = '\x7d' then .ok (.object (putMember name item done), rest)
              else if c = ',' then members fuel (putMember name item done) (skip rest)
              else .error ⟨.commaExpected, c :: rest⟩
        else .error ⟨.colonExpected, rest⟩
      else .error ⟨.nameExpected, s⟩

end

def whole (s : List Char) : Except Stop Json :=
  if s.head? = some '\ufeff' then .error ⟨.byteOrderMark, s⟩
  else do
    let (found, rest) ← value (2 * s.length + 2) (skip s)
    if skip rest = [] then .ok found else .error ⟨.extraData, skip rest⟩

end Reading

structure ReadFault where
  cause : Reading.Cause
  line : Nat
  column : Nat
  offset : Nat
  deriving DecidableEq, Repr

def Reading.Cause.message : Reading.Cause → String
  | .valueExpected => "Expecting value"
  | .nameExpected => "Expecting property name enclosed in double quotes"
  | .colonExpected => "Expecting ':' delimiter"
  | .commaExpected => "Expecting ',' delimiter"
  | .unterminatedString => "Unterminated string starting at"
  | .controlCharacter => "Invalid control character at"
  | .badEscape => "Invalid \\escape"
  | .badUnit => "Invalid \\uXXXX escape"
  | .extraData => "Extra data"
  | .byteOrderMark => "Unexpected UTF-8 BOM (decode using utf-8-sig)"
  | .longInteger digits => Numeral.tooLongMessage digits

def ReadFault.message (fault : ReadFault) : String :=
  match fault.cause with
  | .longInteger _ => fault.cause.message
  | _ => s!"{fault.cause.message}: line {fault.line} column {fault.column} (char {fault.offset})"

def ReadFault.ofStop (s : List Char) (stop : Reading.Stop) : ReadFault :=
  let before := s.take (s.length - stop.rest.length)
  ⟨stop.cause, before.count '\n' + 1, (before.reverse.takeWhile (· != '\n')).length + 1,
    before.length⟩

def read (s : String) : Except ReadFault Json :=
  (Reading.whole s.toList).mapError (ReadFault.ofStop s.toList)

end Stepwise.Json
