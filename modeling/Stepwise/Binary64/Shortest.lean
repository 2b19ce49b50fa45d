import Stepwise.Binary64
import Stepwise.Decimal

/-! The fewest decimal digits that still denote a given double, and of those the nearest. Grids of
1, 2, … 17 digits are tried in turn; a grid point in the interval of numbers that round to the double
has one of the two neighbours of its value in that interval, so only these are tried. -/
namespace Stepwise

/-- The numbers that round to a magnitude, in quarter units; ends count iff the significand is
even. -/
structure Cell where
  low : Nat
  high : Nat
  closed : Bool

def Magnitude.cell (a : Magnitude) : Cell :=
  let below := if a.significand = twoTo 52 ∧ a.scale ≠ 0 then 1 else 2
  ⟨(4 * a.significand - below) * twoTo a.scale, (4 * a.significand + 2) * twoTo a.scale,
    a.significand % 2 == 0⟩

def Cell.holds (cell : Cell) (num den : Nat) : Bool :=
  if cell.closed then cell.low * den ≤ 4 * num && 4 * num ≤ cell.high * den
  else cell.low * den < 4 * num && 4 * num < cell.high * den

structure Grid where
  up : Nat
  down : Nat

def Grid.ofExponent : Int → Grid
  | .ofNat k => ⟨tenTo k * twoTo 1074, 1⟩
  | .negSucc k => ⟨twoTo 1074, tenTo (k + 1)⟩

/-- The grid point that stands for the magnitude, if one of the two around it rounds to it: of both,
the nearer, and of two equally near the even one. -/
def Grid.point? (g : Grid) (a : Magnitude) : Option Nat :=
  let below := a.units * g.down / g.up
  let rest := a.units * g.down % g.up
  match a.cell.holds (below * g.up) g.down, a.cell.holds ((below + 1) * g.up) g.down with
  | true, true =>
      if 2 * rest < g.up then some below
      else if g.up < 2 * rest then some (below + 1)
      else if below % 2 = 0 then some below else some (below + 1)
  | true, false => some below
  | false, true => some (below + 1)
  | false, false => none

/-- The power of ten above a magnitude: its first digit stands one place below. Every magnitude but
zero is over `10 ^ -324`. -/
def Magnitude.ceiling (a : Magnitude) : Int :=
  (Decimal.digitChars (a.units * tenTo 324 / twoTo 1074)).length - 324

def Magnitude.firstPoint (a : Magnitude) : Nat → Nat → Decimal
  | 0, _ => ⟨a.units * Nat.pow 5 1074, -1074⟩
  | tries + 1, count =>
      let exponent := a.ceiling - count
      match (Grid.ofExponent exponent).point? a with
      | some digits => ⟨digits, exponent⟩
      | none => a.firstPoint tries (count + 1)

def Magnitude.shortest (a : Magnitude) : Decimal :=
  if a.significand = 0 then ⟨0, 0⟩ else (a.firstPoint 17 1).dropZeros 17

namespace Binary64

def signChars (negative : Bool) : List Char := if negative then ['-'] else []

def plain : Binary64 → String
  | .finite negative a => String.ofList (signChars negative ++ a.shortest.plainChars)
  | .infinite negative => String.ofList (signChars negative ++ "Infinity".toList)
  | .nan => "NaN"

structure Names where
  infinite : String
  nan : String

def general (names : Names) : Binary64 → String
  | .finite negative a => String.ofList (signChars negative ++ a.shortest.generalChars)
  | .infinite negative => String.ofList (signChars negative ++ names.infinite.toList)
  | .nan => names.nan

end Binary64
end Stepwise
