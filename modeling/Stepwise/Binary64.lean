/-! Double precision numbers as exact values. A finite one is a count of units of `2 ^ -1074`; no
machine arithmetic takes part, so order and equality are those of natural numbers. -/
namespace Stepwise

def twoTo (n : Nat) : Nat := Nat.pow 2 n

/-- The one way to write each magnitude: a significand below `2 ^ 53`, with its top bit set unless
the scale is the lowest. -/
def Normal (significand scale : Nat) : Prop :=
  significand < twoTo 53 ∧ scale ≤ 2045 ∧ (scale = 0 ∨ twoTo 52 ≤ significand)

instance (significand scale : Nat) : Decidable (Normal significand scale) :=
  inferInstanceAs (Decidable (_ ∧ _ ∧ _))

/-- `significand · 2 ^ scale` units. -/
structure Magnitude where
  significand : Nat
  scale : Nat
  normal : Normal significand scale
  deriving DecidableEq, Repr

def Magnitude.units (a : Magnitude) : Nat := a.significand * twoTo a.scale

def Magnitude.zero : Magnitude := ⟨0, 0, by decide⟩

inductive Binary64 where
  | finite (negative : Bool) (size : Magnitude)
  | infinite (negative : Bool)
  | nan
  deriving DecidableEq, Repr

namespace Binary64

def zero : Binary64 := .finite false .zero

instance : Inhabited Binary64 := ⟨zero⟩

def pack (negative : Bool) (significand scale : Nat) : Binary64 :=
  if h : Normal significand scale then .finite negative ⟨significand, scale, h⟩ else .infinite negative

def ofBits (word : Nat) : Binary64 :=
  let fraction := word % twoTo 52
  let field := word / twoTo 52 % twoTo 11
  let negative := word / twoTo 63 % 2 == 1
  if field = 2047 then (if fraction = 0 then .infinite negative else .nan)
  else if field = 0 then pack negative fraction 0
  else pack negative (twoTo 52 + fraction) (field - 1)

def signBit (negative : Bool) : Nat := if negative then twoTo 63 else 0

def toBits : Binary64 → Nat
  | .finite negative a =>
      signBit negative +
        if a.significand < twoTo 52 then a.significand
        else (a.scale + 1) * twoTo 52 + (a.significand - twoTo 52)
  | .infinite negative => signBit negative + 2047 * twoTo 52
  | .nan => 2047 * twoTo 52 + twoTo 51

def units? : Binary64 → Option Int
  | .finite negative a => some (if negative then -(a.units : Int) else a.units)
  | _ => none

/-- Nothing is less than a nan, nor a nan than anything. -/
def lt : Binary64 → Binary64 → Bool
  | .nan, _ | _, .nan => false
  | .infinite a, .infinite b => a && !b
  | .infinite a, .finite .. => a
  | .finite .., .infinite b => !b
  | .finite a x, .finite b y =>
      (if a then -(x.units : Int) else x.units) < (if b then -(y.units : Int) else y.units)

def isNan : Binary64 → Bool
  | .nan => true
  | _ => false

def le (x y : Binary64) : Bool := !x.isNan && !y.isNan && !lt y x

def same (x y : Binary64) : Bool := le x y && le y x

def negate : Binary64 → Binary64
  | .finite negative a => .finite (!negative) a
  | .infinite negative => .infinite (!negative)
  | .nan => .nan

end Binary64
end Stepwise
