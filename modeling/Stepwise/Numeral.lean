import Stepwise.Binary64.Nearest
import Stepwise.Text.Blank
import Stepwise.Text.Digit
import Stepwise.Text.Quoted

/-! Numbers from text. Digits of every script count, blanks around a number do not, and single
underscores may stand between digits; what a run compares is read more strictly. -/
namespace Stepwise
open Text

namespace Numeral

def ascii? (c : Char) : Option Char :=
  if c.toNat < 127 then some c
  else if isBlank c then some ' '
  else (digitValue? c).map fun v => Char.ofNat (48 + v)

def isAsciiBlank (c : Char) : Bool := (9 ≤ c.toNat && c.toNat ≤ 13) || c == ' '

def ungroup? (afterDigit : Bool) : List Char → Option (List Char)
  | [] => some []
  | c :: rest =>
      if c = '_' then
        match rest with
        | [] => none
        | d :: rest => if afterDigit ∧ isDigit d then (ungroup? true rest).map (d :: ·) else none
      else (ungroup? (isDigit c) rest).map (c :: ·)

def exponent? : List Char → Option Int
  | [] => some 0
  | c :: rest =>
      let negative := rest.head? = some '-'
      let digits := if negative ∨ rest.head? = some '+' then rest.drop 1 else rest
      if (c = 'e' ∨ c = 'E') ∧ digits ≠ [] ∧ digits.all isDigit then
        let size : Int := Decimal.ofDigitChars digits
        some (if negative then -size else size)
      else none

def decimal? (s : List Char) : Option Decimal :=
  let whole := s.takeWhile isDigit
  let rest := s.dropWhile isDigit
  if rest.head? = some '.' then
    let fraction := (rest.drop 1).takeWhile isDigit
    if whole = [] ∧ fraction = [] then none
    else (exponent? ((rest.drop 1).dropWhile isDigit)).map fun e =>
      ⟨Decimal.ofDigitChars (whole ++ fraction), e - fraction.length⟩
  else if whole = [] then none
  else (exponent? rest).map fun e => ⟨Decimal.ofDigitChars whole, e⟩

def unsigned? (s : List Char) : Option Binary64 :=
  let name := String.ofList (s.map Char.toLower)
  if name = "inf" ∨ name = "infinity" then some (.infinite false)
  else if name = "nan" then some .nan
  else (decimal? s).map Binary64.ofDecimal

def signed? : List Char → Option Binary64
  | [] => none
  | c :: rest =>
      if c = '-' then (unsigned? rest).map Binary64.negate
      else if c = '+' then unsigned? rest
      else unsigned? (c :: rest)

def read? (s : String) : Option Binary64 := do
  let plain ← s.toList.mapM ascii?
  signed? (← ungroup? false (trimBy isAsciiBlank plain))

/-- The number that a value counts as in a comparison: 0 where it spells none, or has blanks around
it or an underscore in it. -/
def ofValue (s : String) : Binary64 :=
  if '_' ∈ s.toList ∨ trim s.toList ≠ s.toList then .zero else (read? s).getD .zero

def digitLimit : Nat := 4300

def tooLongMessage (digits : Nat) : String :=
  s!"Exceeds the limit ({digitLimit} digits) for integer string conversion: value has {digits} " ++
    "digits; use sys.set_int_max_str_digits() to increase the limit"

inductive IntegerFault where
  | notDigits
  | tooLong (digits : Nat)
  | foreignDigit
  deriving DecidableEq, Repr

/-- The natural number that a run of digits of any script spells. A run past the limit is refused
before a sign that is no decimal digit is noticed behind it. -/
def readNat (s : String) : Except IntegerFault Nat :=
  let signs := s.toList
  let values := signs.map digitValue?
  let known := (values.takeWhile Option.isSome).length
  if signs = [] ∨ signs.any fun c => !isDigitSign c then .error .notDigits
  else if digitLimit < known then .error (.tooLong known)
  else match values.mapM id with
    | some digits => .ok (digits.foldl (fun n d => 10 * n + d) 0)
    | none => .error .foreignDigit

end Numeral
end Stepwise
