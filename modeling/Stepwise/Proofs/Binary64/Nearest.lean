import Mathlib.Tactic.Ring
import Stepwise.Binary64.Nearest
import Stepwise.Binary64.Shortest

/-! The numbers that round to a magnitude are those in its cell: half a unit of the last place to
either side, a quarter below a power of two, and the ends themselves where the significand is even. -/
namespace Stepwise

/-! Powers. -/

theorem twoToPos (n : Nat) : 0 < twoTo n := Nat.pow_pos (by decide)

theorem twoToAdd (m n : Nat) : twoTo (m + n) = twoTo m * twoTo n := Nat.pow_add 2 m n

theorem twoToLe {m n : Nat} (h : m ≤ n) : twoTo m ≤ twoTo n := Nat.pow_le_pow_right (by decide) h

theorem tenToPos (n : Nat) : 0 < tenTo n := Nat.pow_pos (by decide)

theorem tenToZero : tenTo 0 = 1 := rfl

theorem tenToSucc (n : Nat) : tenTo (n + 1) = tenTo n * 10 := rfl

theorem tenToAdd (m n : Nat) : tenTo (m + n) = tenTo m * tenTo n := Nat.pow_add 10 m n

/- Binary places that go into decimal places do so any number of times. -/
theorem placesInto {b c : Nat} (h : twoTo b ≤ tenTo c) (n : Nat) : twoTo (b * n) ≤ tenTo (c * n) := by
  calc twoTo (b * n) = Nat.pow (twoTo b) n := Nat.pow_mul 2 b n
    _ ≤ Nat.pow (tenTo c) n := Nat.pow_le_pow_left h n
    _ = tenTo (c * n) := (Nat.pow_mul 10 c n).symm

theorem threeInto (n : Nat) : twoTo (3 * n) ≤ tenTo n := by
  have each : twoTo 3 ≤ tenTo 1 := by decide
  simpa using placesInto each n

theorem topBit : twoTo 52 = 4503599627370496 ∧ twoTo 53 = 9007199254740992 := ⟨rfl, rfl⟩

/- The whole number that a ratio is nearest to, a half going to the even one. -/
theorem roundNear {num den m : Nat} (below : 2 * (m * den) ≤ 2 * num + den)
    (above : 2 * num ≤ 2 * (m * den) + den) (some : 0 < den)
    (inside : m % 2 = 0 ∨ 2 * (m * den) < 2 * num + den ∧ 2 * num < 2 * (m * den) + den) :
    roundHalfEven num den = m := by
  have parts : den * (num / den) + num % den = num := Nat.div_add_mod num den
  have rest : num % den < den := Nat.mod_lt num some
  have notFurther : num / den ≤ m := by
    by_contra further
    have more : (m + 1) * den ≤ num / den * den := Nat.mul_le_mul_right den (by omega)
    rw [Nat.mul_comm (num / den), Nat.add_mul] at more
    omega
  have notBefore : m ≤ num / den + 1 := by
    by_contra before
    have more : (num / den + 2) * den ≤ m * den := Nat.mul_le_mul_right den (by omega)
    rw [Nat.add_mul, Nat.mul_comm (num / den)] at more
    omega
  have here : m = num / den ∨ m = num / den + 1 := by omega
  unfold roundHalfEven
  dsimp only
  rcases here with same | next
  · rw [same, Nat.mul_comm (num / den)] at below above inside
    repeat' split
    all_goals omega
  · rw [next, Nat.add_mul, Nat.mul_comm (num / den)] at below above inside
    repeat' split
    all_goals omega

theorem Cell.holdsIff {cell : Cell} {num den : Nat} : cell.holds num den = true ↔
    cell.low * den ≤ 4 * num ∧ 4 * num ≤ cell.high * den ∧
      (cell.closed = true ∨ cell.low * den < 4 * num ∧ 4 * num < cell.high * den) := by
  unfold Cell.holds
  cases cell.closed with
  | true => simp
  | false =>
    simp only [Bool.false_eq_true, if_false, Bool.and_eq_true, decide_eq_true_eq, false_or]
    omega

/- Whether a ratio is in a cell does not hang on how it is written. -/
theorem Cell.holdsScaled {cell : Cell} (num den : Nat) {k : Nat} (some : 0 < k) :
    cell.holds (num * k) (den * k) = cell.holds num den := by
  have scaled (a b : Nat) : a * (den * k) = a * den * k ∧ 4 * (b * k) = 4 * b * k :=
    ⟨(Nat.mul_assoc a den k).symm, (Nat.mul_assoc 4 b k).symm⟩
  unfold Cell.holds
  rw [(scaled cell.low num).1, (scaled cell.high num).1, (scaled 0 num).2]
  simp only [Nat.mul_le_mul_right_iff some, Nat.mul_lt_mul_right some]

theorem Cell.holdsSame {cell : Cell} {num den num' den' : Nat} (some : 0 < den) (some' : 0 < den')
    (same : num * den' = num' * den) : cell.holds num den = cell.holds num' den' := by
  rw [← holdsScaled num den some', ← holdsScaled num' den' some, same, Nat.mul_comm den]

namespace Magnitude

/- How far a cell goes down, in quarters of the last place. -/
def room (a : Magnitude) : Nat := if a.significand = twoTo 52 ∧ a.scale ≠ 0 then 1 else 2

variable {a : Magnitude} {num den : Nat}

theorem roomEither (a : Magnitude) :
    a.room = 1 ∧ a.significand = twoTo 52 ∧ a.scale ≠ 0 ∨
      a.room = 2 ∧ (a.significand = twoTo 52 → a.scale = 0) := by
  unfold room
  split
  · exact .inl ⟨rfl, by assumption⟩
  · exact .inr ⟨rfl, by omega⟩

/- A cell in terms of the last place. -/
theorem cellHolds : a.cell.holds num den = true ↔
    (4 * a.significand - a.room) * (twoTo a.scale * den) ≤ 4 * num ∧
      4 * num ≤ (4 * a.significand + 2) * (twoTo a.scale * den) ∧
      (a.significand % 2 = 0 ∨ (4 * a.significand - a.room) * (twoTo a.scale * den) < 4 * num ∧
        4 * num < (4 * a.significand + 2) * (twoTo a.scale * den)) := by
  rw [Cell.holdsIff]
  simp only [cell, room, Nat.mul_assoc, beq_iff_eq]

end Magnitude

namespace Binary64

theorem scaleForLe {q scale : Nat} (h : q < twoTo (scale + 53)) : scaleFor q ≤ scale := by
  by_cases none : q = 0
  · subst none
    exact Nat.zero_le scale
  · have bits : q.log2 < scale + 53 := (Nat.log2_lt none).mpr h
    unfold scaleFor
    omega

theorem scaleForGe {q scale : Nat} (h : twoTo (scale + 52) ≤ q) : scale ≤ scaleFor q := by
  have some : q ≠ 0 := Nat.ne_zero_of_lt (Nat.lt_of_lt_of_le (twoToPos _) h)
  have bits : scale + 52 ≤ q.log2 := (Nat.le_log2 some).mpr h
  unfold scaleFor
  omega

theorem packed (a : Magnitude) : pack false a.significand a.scale = .finite false a := dif_pos a.normal

section
variable {a : Magnitude} {num den : Nat}

/- No ratio in a cell is written with a larger scale than its magnitude. -/
theorem scaleNotAbove (some : 0 < den) (inside : a.cell.holds num den = true) :
    scaleFor (num / den) ≤ a.scale := by
  obtain ⟨_, high, _⟩ := Magnitude.cellHolds.mp inside
  obtain ⟨below, _, _⟩ := a.normal
  have double := topBit.2
  refine scaleForLe ((Nat.div_lt_iff_lt_mul some).mpr ?_)
  rw [Nat.add_comm, twoToAdd, Nat.mul_assoc]
  have whole : (4 * a.significand + 2) * (twoTo a.scale * den) <
      4 * twoTo 53 * (twoTo a.scale * den) :=
    Nat.mul_lt_mul_of_pos_right (by omega) (Nat.mul_pos (twoToPos _) some)
  rw [Nat.mul_assoc 4] at whole
  omega

/- One with a smaller scale is just below a power of two. -/
theorem scaleBefore (some : 0 < den) (inside : a.cell.holds num den = true)
    (before : scaleFor (num / den) < a.scale) : scaleFor (num / den) + 1 = a.scale ∧
      a.significand = twoTo 52 ∧ a.room = 1 ∧ num < twoTo 52 * (twoTo a.scale * den) := by
  obtain ⟨low, _, _⟩ := Magnitude.cellHolds.mp inside
  obtain ⟨_, _, top⟩ := a.normal
  have bit := topBit.1
  have small : num < twoTo 52 * (twoTo a.scale * den) := by
    by_contra big
    have reached : twoTo (a.scale + 52) ≤ num / den := by
      rw [Nat.le_div_iff_mul_le some, Nat.add_comm, twoToAdd, Nat.mul_assoc]
      omega
    exact absurd (scaleForGe reached) (by omega)
  have apart : 4 * a.significand - a.room < 4 * twoTo 52 := by
    refine Nat.lt_of_mul_lt_mul_right (a := twoTo a.scale * den) (Nat.lt_of_le_of_lt low ?_)
    rw [Nat.mul_assoc 4]
    omega
  rcases a.roomEither with ⟨one, power, _⟩ | ⟨two, _⟩
  · have halved : twoTo a.scale * den = 2 * (twoTo (a.scale - 1) * den) := by
      rw [show a.scale = 1 + (a.scale - 1) by omega, twoToAdd, Nat.add_sub_cancel_left, Nat.mul_assoc]
      rfl
    have reached : twoTo (a.scale - 1 + 52) ≤ num / den := by
      rw [halved, power, one, bit] at low
      rw [Nat.le_div_iff_mul_le some, Nat.add_comm, twoToAdd, Nat.mul_assoc, bit]
      omega
    have atLeast := scaleForGe reached
    exact ⟨by omega, power, one, small⟩
  · omega

/- A ratio in the cell of a magnitude is rounded to that magnitude. -/
theorem nearestCell (some : 0 < den) (inside : a.cell.holds num den = true) :
    nearestUnits num den = .finite false a := by
  obtain ⟨low, high, ends⟩ := Magnitude.cellHolds.mp inside
  obtain ⟨below, _, top⟩ := a.normal
  obtain ⟨bit, double⟩ := topBit
  unfold nearestUnits
  dsimp only
  rcases Nat.lt_or_eq_of_le (scaleNotAbove some inside) with less | same
  · obtain ⟨before, power, one, small⟩ := scaleBefore some inside less
    have half : twoTo a.scale = 2 * twoTo (scaleFor (num / den)) := by
      rw [← before, Nat.add_comm, twoToAdd]
      rfl
    have unit : 0 < den * twoTo (scaleFor (num / den)) := Nat.mul_pos some (twoToPos _)
    -- the ratio comes to the power of two itself, which is written with the next scale
    have rounded : roundHalfEven num (den * twoTo (scaleFor (num / den))) = twoTo 53 := by
      rw [half, Nat.mul_assoc, Nat.mul_comm (twoTo _) den] at low small
      generalize den * twoTo (scaleFor (num / den)) = unit_ at low small unit
      rw [power, one, bit] at low
      rw [bit] at small
      rw [double]
      exact roundNear (by omega) (by omega) unit (.inl rfl)
    rw [rounded, if_pos rfl, before, ← power, packed]
  · have unit : 0 < twoTo a.scale * den := Nat.mul_pos (twoToPos _) some
    have rounded : roundHalfEven num (den * twoTo a.scale) = a.significand := by
      rw [Nat.mul_comm den]
      generalize twoTo a.scale * den = unit_ at low high ends unit
      rw [Nat.sub_mul, Nat.mul_assoc] at low ends
      rw [Nat.add_mul, Nat.mul_assoc] at high ends
      have near : a.room * unit_ ≤ 2 * unit_ :=
        Nat.mul_le_mul_right unit_ (by rcases a.roomEither with ⟨one, _⟩ | ⟨two, _⟩ <;> omega)
      exact roundNear (by omega) (by omega) unit (by omega)
    rw [same, rounded, if_neg (by omega), packed]

end
end Binary64

/-! Decimals. -/

namespace Decimal

/- A decimal as a ratio of whole numbers. -/
def numerator (d : Decimal) : Nat :=
  match d.exponent with
  | .ofNat zeros => d.digits * tenTo zeros
  | .negSucc _ => d.digits

def denominator (d : Decimal) : Nat :=
  match d.exponent with
  | .ofNat _ => 1
  | .negSucc k => tenTo (k + 1)

theorem denominatorPos (d : Decimal) : 0 < d.denominator := by
  unfold denominator
  cases d.exponent with
  | ofNat zeros => exact Nat.one_pos
  | negSucc k => exact tenToPos (k + 1)

end Decimal

/- The decimals that round to a magnitude. -/
def Magnitude.Covers (a : Magnitude) (d : Decimal) : Prop :=
  a.cell.holds (d.numerator * twoTo 1074) d.denominator = true

namespace Binary64

variable {a : Magnitude} {digits k : Nat}

theorem cellSome (some : a.significand ≠ 0) : 2 ≤ a.cell.low := by
  have unit := twoToPos a.scale
  have few : 2 ≤ 4 * a.significand - a.room := by
    rcases a.roomEither with ⟨one, _⟩ | ⟨two, _⟩ <;> omega
  exact Nat.le_trans few (Nat.le_mul_of_pos_right _ unit)

theorem cellBelow (a : Magnitude) : a.cell.high < 4 * twoTo 2098 := by
  obtain ⟨below, scale, _⟩ := a.normal
  have whole : twoTo 2098 = twoTo 53 * twoTo 2045 := twoToAdd 53 2045
  have double := topBit.2
  calc a.cell.high = (4 * a.significand + 2) * twoTo a.scale := rfl
    _ ≤ (4 * a.significand + 2) * twoTo 2045 := Nat.mul_le_mul_left _ (twoToLe scale)
    _ < 4 * twoTo 53 * twoTo 2045 := Nat.mul_lt_mul_of_pos_right (by omega) (twoToPos _)
    _ = 4 * twoTo 2098 := by rw [whole, Nat.mul_assoc]

/- A decimal past the range has digits and zeros enough to tell. -/
theorem coveredFinite (digitsSome : digits ≠ 0) (covers : a.Covers ⟨digits, .ofNat k⟩) :
    ¬ 1024 ≤ digits.log2 + 3 * k := by
  intro large
  have high := (Cell.holdsIff.mp covers).2.1
  have bits : twoTo digits.log2 ≤ digits := (Nat.le_log2 digitsSome).mp (Nat.le_refl _)
  have whole : twoTo 2098 ≤ digits * tenTo k * twoTo 1074 := by
    calc twoTo 2098 ≤ twoTo (digits.log2 + 3 * k + 1074) := twoToLe (by omega)
      _ = twoTo digits.log2 * twoTo (3 * k) * twoTo 1074 := by rw [twoToAdd, twoToAdd]
      _ ≤ digits * tenTo k * twoTo 1074 :=
        Nat.mul_le_mul_right _ (Nat.mul_le_mul bits (threeInto k))
  have bound := cellBelow a
  simp only [Decimal.numerator, Decimal.denominator, Nat.mul_one] at high
  omega

theorem coveredSome (some : a.significand ≠ 0) (covers : a.Covers ⟨digits, .negSucc k⟩) :
    ¬ digits.log2 + 1077 ≤ 3 * (k + 1) := by
  intro small
  have low := (Cell.holdsIff.mp covers).1
  have atLeast : 2 * tenTo (k + 1) ≤ a.cell.low * tenTo (k + 1) :=
    Nat.mul_le_mul_right _ (cellSome some)
  have bits : digits < twoTo (digits.log2 + 1) := Nat.lt_log2_self
  rw [twoToAdd, show twoTo 1 = 2 from rfl] at bits
  have whole : digits * twoTo 1074 < twoTo digits.log2 * 2 * twoTo 1074 :=
    Nat.mul_lt_mul_of_pos_right bits (twoToPos _)
  have places : twoTo digits.log2 * 8 * twoTo 1074 ≤ tenTo (k + 1) := by
    calc twoTo digits.log2 * 8 * twoTo 1074 = twoTo (digits.log2 + 3 + 1074) := by
          rw [twoToAdd, twoToAdd, show twoTo 3 = 8 from rfl]
      _ ≤ twoTo (3 * (k + 1)) := twoToLe small
      _ ≤ tenTo (k + 1) := threeInto (k + 1)
  rw [Nat.mul_right_comm] at whole places
  simp only [Decimal.numerator, Decimal.denominator] at low
  omega

/- Whatever covers a magnitude that is not zero has digits. -/
theorem coversSome {d : Decimal} (some : a.significand ≠ 0) (covers : a.Covers d) : d.digits ≠ 0 := by
  intro none
  have low := (Cell.holdsIff.mp covers).1
  have unit := Nat.mul_pos (Nat.lt_of_lt_of_le Nat.two_pos (cellSome some)) d.denominatorPos
  have nothing : d.numerator = 0 := by
    unfold Decimal.numerator
    cases d.exponent <;> simp [none]
  rw [nothing, Nat.zero_mul] at low
  omega

/- A decimal in the cell of a magnitude denotes that magnitude. -/
theorem ofDecimalCovered {d : Decimal} (some : a.significand ≠ 0) (covers : a.Covers d) :
    ofDecimal d = .finite false a := by
  have digitsSome := coversSome some covers
  have rounded := nearestCell d.denominatorPos covers
  obtain ⟨digits, exponent⟩ := d
  unfold ofDecimal
  rw [if_neg digitsSome]
  cases exponent with
  | ofNat k =>
    dsimp only
    rw [if_neg (coveredFinite digitsSome covers)]
    exact rounded
  | negSucc k =>
    dsimp only
    rw [if_neg (coveredSome some covers)]
    exact rounded

end Binary64
end Stepwise
