/-! Unsigned decimals `digits · 10 ^ exponent` and their two spellings. Nothing here rounds. -/
namespace Stepwise

def tenTo (n : Nat) : Nat := Nat.pow 10 n

structure Decimal where
  digits : Nat
  exponent : Int
  deriving DecidableEq, Repr

namespace Decimal

def digitChars (n : Nat) : List Char := Nat.toDigits 10 n

def ofDigitChars (s : List Char) : Nat := Nat.ofDigitChars 10 s 0

/-- Moves zeros at the end of the digits into the exponent, at most `room` of them. -/
def dropZeros : Nat → Decimal → Decimal
  | 0, d => d
  | room + 1, d =>
      if d.digits ≠ 0 ∧ d.digits % 10 = 0 then dropZeros room ⟨d.digits / 10, d.exponent + 1⟩ else d

def plainChars (d : Decimal) : List Char :=
  let ds := digitChars d.digits
  match d.exponent with
  | .ofNat zeros => ds ++ List.replicate zeros '0'
  | .negSucc k =>
      let places := k + 1
      if places < ds.length then ds.take (ds.length - places) ++ ['.'] ++ ds.drop (ds.length - places)
      else ['0', '.'] ++ List.replicate (places - ds.length) '0' ++ ds

def leading (d : Decimal) : Int := d.exponent + (digitChars d.digits).length - 1

def exponentChars (d : Decimal) : List Char :=
  let mantissa := match digitChars d.digits with
    | first :: second :: more => [first, '.'] ++ second :: more
    | ds => ds
  let power := digitChars d.leading.natAbs
  mantissa ++ ['e', if d.leading < 0 then '-' else '+'] ++
    List.replicate (2 - power.length) '0' ++ power

/-- Positional from 0.0001 up to sixteen digits before the point, and then always with a fraction;
by exponent outside. -/
def generalChars (d : Decimal) : List Char :=
  if d.leading < -4 ∨ 16 ≤ d.leading then d.exponentChars
  else if 0 ≤ d.exponent then d.plainChars ++ ['.', '0'] else d.plainChars

end Decimal
end Stepwise
