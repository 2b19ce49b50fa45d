import Stepwise.Decimal
import Stepwise.Text.Digit

/-! The digits of a natural number. -/
namespace Stepwise.Decimal
open Text

theorem digitsPlain {n : Nat} {c : Char} (h : c ∈ digitChars n) : isDigit c = true :=
  Nat.isDigit_of_mem_toDigits (by decide) (by decide) h

theorem digitsSome (n : Nat) : digitChars n ≠ [] := Nat.toDigits_ne_nil

theorem digitsValue (n : Nat) : ofDigitChars (digitChars n) = n :=
  Nat.ofDigitChars_toDigits (by decide) (by decide)

theorem digitsBegin (n : Nat) : ∃ c more, digitChars n = c :: more ∧ isDigit c = true := by
  obtain ⟨c, more, digits⟩ := List.exists_cons_of_ne_nil (digitsSome n)
  exact ⟨c, more, digits, digitsPlain (n := n) (digits ▸ List.mem_cons_self)⟩

theorem digitsFirst (n : Nat) (rest : List Char) :
    (digitChars n ++ rest).head? = (digitChars n).head? := by
  obtain ⟨c, more, digits, _⟩ := digitsBegin n
  rw [digits]
  rfl

/- A number that is not zero begins with another digit. -/
theorem digitsHead {n : Nat} (h : n ≠ 0) : (digitChars n).head? ≠ some '0' := by
  induction n using Nat.strongRecOn with
  | _ n ih =>
    rw [digitChars, Nat.toDigits_eq_if (by decide)]
    split
    · rename_i small
      have single : ∀ k < 10, k ≠ 0 → [k.digitChar].head? ≠ some '0' := by decide
      exact single n small h
    · rename_i large
      have before := ih (n / 10) (by omega) (by omega)
      exact fun zero => before ((digitsFirst (n / 10) _).symm.trans zero)

/- The last digit is the remainder of ten. -/
theorem digitsLast (n : Nat) : ∃ front, digitChars n = front ++ [(n % 10).digitChar] := by
  unfold digitChars
  rw [Nat.toDigits_eq_if (by decide)]
  split
  · rename_i small
    exact ⟨[], by rw [Nat.mod_eq_of_lt small, List.nil_append]⟩
  · exact ⟨_, rfl⟩

/- A run of digits spells a number that is less than the power of its length. -/
theorem digitsBelow {s : List Char} (digits : ∀ c ∈ s, isDigit c = true) (n : Nat) :
    Nat.ofDigitChars 10 s n < (n + 1) * tenTo s.length := by
  induction s generalizing n with
  | nil => exact Nat.lt_of_lt_of_eq (Nat.lt_succ_self n) (Nat.mul_one _).symm
  | cons c rest ih =>
    obtain ⟨first, others⟩ := List.forall_mem_cons.mp digits
    have small : c.toNat - '0'.toNat < 10 := by
      simp only [isDigit, Bool.and_eq_true, decide_eq_true_eq] at first
      have bound : c.toNat ≤ '9'.toNat := first.2
      have nine : '9'.toNat = 57 ∧ '0'.toNat = 48 := by decide
      omega
    have behind := ih others (10 * n + (c.toNat - '0'.toNat))
    have longer : tenTo (rest.length + 1) = 10 * tenTo rest.length := Nat.mul_comm _ _
    rw [List.length_cons, longer, ← Nat.mul_assoc]
    exact Nat.lt_of_lt_of_le behind (Nat.mul_le_mul_right _ (by omega))

/- Written out again, it has no more digits. -/
theorem digitsAgain {s : List Char} (digits : ∀ c ∈ s, isDigit c = true) {limit : Nat}
    (some : 0 < limit) (short : s.length ≤ limit) :
    (digitChars (ofDigitChars s)).length ≤ limit := by
  have below := digitsBelow digits 0
  rw [Nat.zero_add, Nat.one_mul] at below
  refine (Nat.length_toDigits_le_iff (by decide) some).mpr ?_
  exact Nat.lt_of_lt_of_le below (Nat.pow_le_pow_right (by decide) short)

theorem spelledNat (n : Nat) : (toString (Int.ofNat n)).toList = digitChars n :=
  Nat.toList_repr

theorem spelledNegative (n : Nat) :
    (toString (Int.negSucc n)).toList = '-' :: digitChars (n + 1) := by
  change ("-" ++ (n + 1).repr).toList = _
  rw [String.toList_append, Nat.toList_repr]
  rfl

end Stepwise.Decimal
