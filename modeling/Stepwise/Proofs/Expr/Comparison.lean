import Mathlib.Algebra.Order.Field.Rat
import Mathlib.Tactic.FieldSimp
import Mathlib.Tactic.Linarith
import Mathlib.Tactic.NormNum
import Mathlib.Tactic.Positivity
import Mathlib.Tactic.Qify
import Stepwise.Expr.Evaluation
import Stepwise.Proofs.Binary64.Order
import Stepwise.Proofs.Binary64.Plain

/-! Comparison of decimals. What is compared are doubles, so that decimals with many digits may count as
the same number; but none counts as less than one that it is not less than. -/
namespace Stepwise
open Text

variable {s : List Char} {x y : ℚ} {a b : String}

/- What digits, perhaps with a point and further digits behind them, are worth. -/
inductive Denotes : List Char → ℚ → Prop where
  | digits (whole : List Char) (some : whole ≠ []) (digits : ∀ c ∈ whole, isDigit c = true) :
      Denotes whole (Decimal.ofDigitChars whole)
  | point (whole fraction : List Char) (some : whole ≠ []) (digits : ∀ c ∈ whole, isDigit c = true)
      (someMore : fraction ≠ []) (more : ∀ c ∈ fraction, isDigit c = true) :
      Denotes (whole ++ '.' :: fraction)
        (Decimal.ofDigitChars whole + Decimal.ofDigitChars fraction / tenTo fraction.length)

namespace Decimal

theorem placesRatio (digits places : Nat) :
    (⟨digits, -places⟩ : Decimal).numerator = digits ∧
      (⟨digits, -places⟩ : Decimal).denominator = tenTo places := by
  cases places with
  | zero => exact ⟨Nat.mul_one digits, rfl⟩
  | succ k => exact ⟨rfl, rfl⟩

theorem digitsJoined (whole fraction : List Char) :
    ofDigitChars (whole ++ fraction) =
      tenTo fraction.length * ofDigitChars whole + ofDigitChars fraction := by
  unfold ofDigitChars
  rw [Nat.ofDigitChars_append, Nat.ofDigitChars_eq_ofDigitChars_zero]
  rfl

end Decimal

namespace Denotes

theorem spelling (h : Denotes s x) : NumberSpelling s := by
  cases h with
  | digits _ some digits => exact .digits _ some digits
  | point _ _ some digits someMore more => exact .point _ _ some digits someMore more

theorem nonneg (h : Denotes s x) : 0 ≤ x := by
  cases h <;> positivity

/- The decimal that is read is worth just that, without rounding. -/
theorem ratio (h : Denotes s x) :
    x * (Numeral.spelled s).denominator = (Numeral.spelled s).numerator := by
  cases h with
  | digits _ _ digits =>
    obtain ⟨numerator, denominator⟩ := Decimal.placesRatio (Decimal.ofDigitChars s) 0
    rw [Numeral.spelledDigits digits]
    change _ * ((⟨_, -(0 : Nat)⟩ : Decimal).denominator : ℚ) = ((⟨_, -(0 : Nat)⟩ : Decimal).numerator : ℚ)
    rw [numerator, denominator, show tenTo 0 = 1 from rfl, Nat.cast_one, mul_one]
  | point whole fraction _ digits =>
    obtain ⟨numerator, denominator⟩ :=
      Decimal.placesRatio (Decimal.ofDigitChars (whole ++ fraction)) fraction.length
    have unit : (tenTo fraction.length : ℚ) ≠ 0 := Nat.cast_ne_zero.mpr (tenToPos _).ne'
    rw [Numeral.spelledPoint fraction digits, numerator, denominator, Decimal.digitsJoined]
    push_cast
    field_simp

theorem ordered (left : Denotes s x) {s' : List Char} (right : Denotes s' y) (le : x ≤ y) :
    (Numeral.spelled s).numerator * (Numeral.spelled s').denominator ≤
      (Numeral.spelled s').numerator * (Numeral.spelled s).denominator := by
  qify
  rw [← left.ratio, ← right.ratio, mul_right_comm y]
  gcongr

theorem whole {n : Nat} (h : Denotes s n) :
    (Numeral.spelled s).numerator = n * (Numeral.spelled s).denominator := by
  have ratio := h.ratio
  exact_mod_cast ratio.symm

theorem value (h : Denotes a.toList x) :
    Numeral.ofValue a = Binary64.ofDecimal (Numeral.spelled a.toList) := by
  have clear := Numeral.spelledClear h.spelling
  have read := Numeral.readSpelled h.spelling
  rw [Numeral.readClear clear] at read
  rw [← String.ofList_toList (s := a), Numeral.valueClear clear, read, String.toList_ofList]
  rfl

theorem valueOrdered (left : Denotes a.toList x) (right : Denotes b.toList y) (le : x ≤ y) :
    (Numeral.ofValue a).le (Numeral.ofValue b) = true := by
  rw [left.value, right.value]
  exact Decimal.ofDecimalOrdered (left.ordered right le)

theorem valueWhole {n : Nat} (h : Denotes a.toList n) (short : n ≤ twoTo 53) :
    ∃ size, Numeral.ofValue a = .finite false size ∧ size.units = n * twoTo 1074 := by
  rw [h.value]
  exact Decimal.ofDecimalWhole h.whole short

end Denotes

theorem compareSymbol (c : Comparison) : compare a c.symbol b = .ok (c.holds a b) := by
  cases c <;> rfl

theorem Binary64.leApart {u v : Binary64} (h : u.le v = true) : v.lt u = false := by
  unfold Binary64.le at h
  simpa using (Bool.and_eq_true_iff.mp h).2

/- Whole numbers in doubles are compared like themselves. -/
theorem Binary64.wholeOrder {size size' : Magnitude} {m n : Nat} (left : size.units = m * twoTo 1074)
    (right : size'.units = n * twoTo 1074) :
    (finite false size).lt (finite false size') = decide (m < n) ∧
      (finite false size).le (finite false size') = decide (m ≤ n) := by
  have less (u v : Magnitude) : (finite false u).lt (finite false v) = decide (u.units < v.units) := by
    simp only [lt, Bool.false_eq_true, if_false, Nat.cast_lt]
  have scaled (k l : Nat) : k * twoTo 1074 < l * twoTo 1074 ↔ k < l :=
    Nat.mul_lt_mul_right (twoToPos 1074)
  have notMore : (!decide (n < m)) = decide (m ≤ n) := by
    rw [← decide_not, decide_eq_decide.mpr not_lt]
  constructor
  · rw [less, left, right, decide_eq_decide.mpr (scaled m n)]
  · rw [Binary64.le, less, left, right, decide_eq_decide.mpr (scaled n m), notMore]
    rfl

/- A decimal that is at most another one compares so, and one that compares less is less, however many
digits they have. Whole numbers up to `2 ^ 53` compare like themselves. -/
theorem compareOrdered (left : Denotes a.toList x) (right : Denotes b.toList y) :
    (x ≤ y → compare a "<=" b = .ok true ∧ compare b ">=" a = .ok true) ∧
    (compare a "<" b = .ok true ∨ compare b ">" a = .ok true → x < y) ∧
    ∀ m n : Int, x = m → y = n → m ≤ twoTo 53 → n ≤ twoTo 53 →
      compare a "<" b = .ok (decide (m < n)) ∧ compare a "<=" b = .ok (decide (m ≤ n)) ∧
      compare a ">" b = .ok (decide (m > n)) ∧ compare a ">=" b = .ok (decide (m ≥ n)) := by
  have less (a b : String) : compare a "<" b = .ok ((Numeral.ofValue a).lt (Numeral.ofValue b)) :=
    compareSymbol .less
  have lessEqual (a b : String) : compare a "<=" b = .ok ((Numeral.ofValue a).le (Numeral.ofValue b)) :=
    compareSymbol .lessEqual
  have greater (a b : String) : compare a ">" b = compare b "<" a :=
    (compareSymbol .greater).trans (less b a).symm
  have greaterEqual (a b : String) : compare a ">=" b = compare b "<=" a :=
    (compareSymbol .greaterEqual).trans (lessEqual b a).symm
  refine ⟨fun le => ?_, fun holds => ?_, fun m n first second shortFirst shortSecond => ?_⟩
  · rw [greaterEqual, lessEqual, left.valueOrdered right le]
    exact ⟨rfl, rfl⟩
  · rw [greater, or_self, less, Except.ok.injEq] at holds
    by_contra notLess
    have apart := Binary64.leApart (right.valueOrdered left (not_lt.mp notLess))
    rw [apart] at holds
    cases holds
  · subst first second
    lift m to Nat using by exact_mod_cast left.nonneg
    lift n to Nat using by exact_mod_cast right.nonneg
    rw [Int.cast_natCast] at left right
    obtain ⟨size, read, units⟩ := left.valueWhole (by exact_mod_cast shortFirst)
    obtain ⟨size', read', units'⟩ := right.valueWhole (by exact_mod_cast shortSecond)
    obtain ⟨below, atMost⟩ := Binary64.wholeOrder units units'
    obtain ⟨above, atLeast⟩ := Binary64.wholeOrder units' units
    simp only [greater, greaterEqual, less, lessEqual, read, read', below, above, atMost, atLeast]
    simp

/- The largest of the whole numbers that are compared so, with a point in it. -/
theorem compareOrderedTop :
    ∃ x y, Denotes "9007199254740991".toList x ∧ Denotes "9007199254740992.0".toList y ∧ x ≤ y ∧
      compare "9007199254740991" "<=" "9007199254740992.0" = .ok true ∧
      compare "9007199254740991" "<" "9007199254740992.0" = .ok true ∧ x < y := by
  have left : Denotes "9007199254740991".toList 9007199254740991 :=
    .digits "9007199254740991".toList (by decide) (List.all_eq_true.mp (by decide))
  have right : Denotes "9007199254740992.0".toList (9007199254740992 + (0 : Nat) / (10 : Nat)) :=
    .point "9007199254740992".toList "0".toList (by decide) (List.all_eq_true.mp (by decide)) (by decide)
      (List.all_eq_true.mp (by decide))
  have value : (9007199254740992 + (0 : Nat) / (10 : Nat) : ℚ) = 9007199254740992 := by norm_num
  rw [value] at right
  obtain ⟨ordered, strict, wholes⟩ := compareOrdered left right
  have le : (9007199254740991 : ℚ) ≤ 9007199254740992 := by norm_num
  obtain ⟨less, -⟩ := wholes 9007199254740991 9007199254740992 (by norm_num) (by norm_num) (by decide)
    (by decide)
  have holds : compare "9007199254740991" "<" "9007199254740992.0" = .ok true := less
  exact ⟨_, _, left, right, le, (ordered le).1, holds, strict (.inl holds)⟩

end Stepwise
