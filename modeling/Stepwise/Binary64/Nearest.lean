import Stepwise.Binary64
import Stepwise.Decimal

/-! The double nearest to a ratio, a half going to the even neighbour, and hence the double that a
decimal denotes. -/
namespace Stepwise

def roundHalfEven (num den : Nat) : Nat :=
  let q := num / den
  let r := num % den
  if 2 * r < den then q
  else if den < 2 * r then q + 1
  else if q % 2 = 0 then q else q + 1

namespace Binary64

def scaleFor (q : Nat) : Nat := q.log2 + 1 - 53

def nearestUnits (num den : Nat) : Binary64 :=
  let scale := scaleFor (num / den)
  let significand := roundHalfEven num (den * twoTo scale)
  if significand = twoTo 53 then pack false (twoTo 52) (scale + 1) else pack false significand scale

def nearestRatio (num den : Nat) : Binary64 := nearestUnits (num * twoTo 1074) den

/-- The double nearest to a decimal. As `8 ^ k ≤ 10 ^ k`, an exponent far from zero settles the
answer before any power is taken. -/
def ofDecimal (d : Decimal) : Binary64 :=
  if d.digits = 0 then zero
  else match d.exponent with
    | .ofNat k =>
        if 1024 ≤ d.digits.log2 + 3 * k then .infinite false
        else nearestRatio (d.digits * tenTo k) 1
    | .negSucc k =>
        if d.digits.log2 + 1077 ≤ 3 * (k + 1) then zero
        else nearestRatio d.digits (tenTo (k + 1))

def ofNat (n : Nat) : Binary64 := ofDecimal ⟨n, 0⟩

end Binary64
end Stepwise
