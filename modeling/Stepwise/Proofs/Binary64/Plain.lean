import Stepwise.Proofs.Binary64.Shortest
import Stepwise.Proofs.Decimal
import Stepwise.Proofs.Token.Number

/-! The plain text of a number. It has digits and at most a point, and what is read from it is the
number again. -/
namespace Stepwise
open Text

/-! The spelling of a decimal. -/

namespace Decimal

theorem zerosPlain {n : Nat} {c : Char} (h : c ∈ List.replicate n '0') : isDigit c = true := by
  rw [List.eq_of_mem_replicate h]
  decide

/- Digits and zeros behind them, or digits with a point between them. -/
theorem plainParts (d : Decimal) :
    (∃ zeros, d.exponent = .ofNat zeros ∧
      d.plainChars = digitChars d.digits ++ List.replicate zeros '0') ∨
    ∃ k whole fraction, d.exponent = .negSucc k ∧ d.plainChars = whole ++ '.' :: fraction ∧
      whole ≠ [] ∧ fraction.length = k + 1 ∧ ∃ zeros,
        whole ++ fraction = List.replicate zeros '0' ++ digitChars d.digits := by
  obtain ⟨digits, exponent⟩ := d
  cases exponent with
  | ofNat zeros => exact .inl ⟨zeros, rfl, rfl⟩
  | negSucc k =>
    right
    unfold plainChars
    dsimp only
    split
    · rename_i fewer
      refine ⟨k, (digitChars digits).take ((digitChars digits).length - (k + 1)),
        (digitChars digits).drop ((digitChars digits).length - (k + 1)), rfl, by simp, ?_, ?_, 0, ?_⟩
      · refine List.ne_nil_of_length_pos ?_
        rw [List.length_take]
        omega
      · rw [List.length_drop]
        omega
      · rw [List.take_append_drop]
        rfl
    · rename_i more
      refine ⟨k, ['0'], List.replicate (k + 1 - (digitChars digits).length) '0' ++ digitChars digits,
        rfl, by simp, by simp, ?_, k + 1 - (digitChars digits).length + 1, rfl⟩
      rw [List.length_append, List.length_replicate]
      omega

theorem partsPlain {whole fraction : List Char} {zeros n : Nat}
    (parts : whole ++ fraction = List.replicate zeros '0' ++ digitChars n) :
    (∀ c ∈ whole, isDigit c = true) ∧ ∀ c ∈ fraction, isDigit c = true := by
  have each : ∀ c ∈ whole ++ fraction, isDigit c = true := by
    rw [parts]
    exact fun c inside => (List.mem_append.mp inside).elim zerosPlain digitsPlain
  exact ⟨fun c inside => each c (List.mem_append_left _ inside),
    fun c inside => each c (List.mem_append_right _ inside)⟩

theorem plainSpelled (d : Decimal) : NumberSpelling d.plainChars := by
  rcases d.plainParts with ⟨zeros, _, shape⟩ | ⟨k, whole, fraction, _, shape, some, long, zeros, parts⟩
  · rw [shape]
    exact .digits _ (List.append_ne_nil_of_left_ne_nil (digitsSome _) _)
      fun c inside => (List.mem_append.mp inside).elim digitsPlain zerosPlain
  · obtain ⟨digits, more⟩ := partsPlain parts
    rw [shape]
    exact .point whole fraction some digits (List.ne_nil_of_length_pos (by omega)) more

/- A decimal without zeros at the end of its digits has none at the end of its fraction. -/
theorem plainEnds {d : Decimal} (h : d.digits % 10 ≠ 0 ∨ 0 ≤ d.exponent) :
    ¬ ['.', '0'] <:+ d.plainChars := by
  rintro ⟨front, ending⟩
  rcases d.plainParts with ⟨zeros, _, shape⟩ | ⟨k, whole, fraction, below, shape, _, long, zeros, parts⟩
  · have inside : '.' ∈ digitChars d.digits ++ List.replicate zeros '0' := by
      rw [← shape, ← ending]
      simp
    rcases List.mem_append.mp inside with point | point
    · exact absurd (digitsPlain point) (by decide)
    · exact absurd (zerosPlain point) (by decide)
  · have trailing : d.digits % 10 ≠ 0 := by
      rcases h with digit | whole_
      · exact digit
      · rw [below] at whole_
        exact absurd whole_ (by simp)
    obtain ⟨before, last⟩ := digitsLast d.digits
    have some : fraction ≠ [] := List.ne_nil_of_length_pos (by omega)
    have ends : (whole ++ '.' :: fraction).getLast? = (whole ++ fraction).getLast? := by
      simp [List.getLast?_append, List.getLast?_cons, List.getLast?_eq_some_getLast some]
    have zero : (d.digits % 10).digitChar = '0' := by
      rw [← shape, ← ending, parts, last, ← List.append_assoc, List.getLast?_concat] at ends
      rw [show front ++ ['.', '0'] = front ++ ['.'] ++ ['0'] by simp, List.getLast?_concat] at ends
      exact (Option.some.inj ends).symm
    have single : ∀ n < 10, n ≠ 0 → n.digitChar ≠ '0' := by decide
    exact single _ (Nat.mod_lt _ (by decide)) trailing zero

/- What the spelling of a decimal is read as has its value. -/
theorem plainRatio (d : Decimal) : (Numeral.spelled d.plainChars).numerator = d.numerator ∧
    (Numeral.spelled d.plainChars).denominator = d.denominator := by
  rcases d.plainParts with ⟨zeros, whole_, shape⟩ | ⟨k, whole, fraction, below, shape, _, long, zeros, parts⟩
  · have digits : ∀ c ∈ d.plainChars, isDigit c = true := by
      rw [shape]
      exact fun c inside => (List.mem_append.mp inside).elim digitsPlain zerosPlain
    have value : ofDigitChars d.plainChars = d.digits * tenTo zeros := by
      rw [shape, ofDigitChars, Nat.ofDigitChars_append, Nat.ofDigitChars_replicate_zero, Nat.mul_comm]
      exact congrArg (· * tenTo zeros) (digitsValue d.digits)
    rw [Numeral.spelledDigits digits, value]
    simp [numerator, denominator, whole_, tenToZero]
  · have digits := (partsPlain parts).1
    have value : ofDigitChars (whole ++ fraction) = d.digits := by
      rw [parts, ofDigitChars, Nat.ofDigitChars_append, Nat.ofDigitChars_replicate_zero, Nat.mul_zero]
      exact digitsValue d.digits
    have exponent : -((k + 1 : Nat) : Int) = .negSucc k := rfl
    rw [shape, Numeral.spelledPoint fraction digits, value, long, exponent]
    simp [numerator, denominator, below]

end Decimal

/-! Numbers. -/

namespace Magnitude

theorem zeroOnly {a : Magnitude} (none : a.significand = 0) : a = zero := by
  obtain ⟨significand, scale, below, within, top⟩ := a
  subst none
  have bit := topBit.1
  obtain rfl : scale = 0 := by omega
  rfl

/- The digits of what is shown do not end in a zero, unless it has no fraction. -/
theorem shortestEnds (a : Magnitude) : a.shortest.digits % 10 ≠ 0 ∨ 0 ≤ a.shortest.exponent := by
  by_cases none : a.significand = 0
  · right
    rw [shortest, if_pos none]
  · exact .inl (shortestShown none).2

/- What is shown of a magnitude is read as that magnitude. -/
theorem shortestRead (a : Magnitude) :
    Binary64.ofDecimal (Numeral.spelled a.shortest.plainChars) = .finite false a := by
  by_cases none : a.significand = 0
  · rw [shortest, if_pos none, zeroOnly none]
    rfl
  · obtain ⟨num, den⟩ := a.shortest.plainRatio
    refine Binary64.ofDecimalCovered none ?_
    unfold Covers
    rw [num, den]
    exact (shortestShown none).1

end Magnitude

namespace Binary64

/- The text of a finite number: a sign if it is negative, and the spelling of its magnitude. -/
theorem plainFinite (negative : Bool) (a : Magnitude) :
    (finite negative a).plain.toList = signChars negative ++ a.shortest.plainChars ∧
      NumberSpelling a.shortest.plainChars ∧ ¬ ['.', '0'] <:+ a.shortest.plainChars :=
  ⟨String.toList_ofList, Decimal.plainSpelled _, Decimal.plainEnds a.shortestEnds⟩

theorem plainPositive (a : Magnitude) :
    (finite false a).plain.toList = a.shortest.plainChars ∧
      NumberSpelling (finite false a).plain.toList := by
  have shape : (finite false a).plain.toList = a.shortest.plainChars := (plainFinite false a).1
  rw [shape]
  exact ⟨rfl, Decimal.plainSpelled _⟩

theorem plainClear (negative : Bool) (a : Magnitude) :
    Numeral.Clear (signChars negative ++ a.shortest.plainChars) := by
  have body := Numeral.spelledClear (Decimal.plainSpelled a.shortest)
  cases negative with
  | false => exact body
  | true =>
    have sign : Numeral.isClear '-' = true := by decide
    simpa [signChars, sign] using body

theorem plainSigned (negative : Bool) (a : Magnitude) :
    Numeral.signed? (signChars negative ++ a.shortest.plainChars) = some (finite negative a) := by
  have spelled := Decimal.plainSpelled a.shortest
  cases negative with
  | true =>
    have value := Numeral.unsignedSpelled spelled
    rw [a.shortestRead] at value
    simp [signChars, Numeral.signed?, value, negate]
  | false =>
    have value := Numeral.readSpelled spelled
    rw [Numeral.readClear (Numeral.spelledClear spelled), a.shortestRead] at value
    exact value

theorem infinitySigned (negative : Bool) :
    Numeral.signed? (signChars negative ++ "Infinity".toList) = some (infinite negative) := by
  have name : String.ofList ("Infinity".toList.map Char.toLower) = "infinity" := by decide
  have unsigned : Numeral.unsigned? "Infinity".toList = some (infinite false) := by
    unfold Numeral.unsigned?
    dsimp only
    rw [if_pos (.inr name)]
  cases negative with
  | true =>
    change (Numeral.unsigned? "Infinity".toList).map negate = _
    rw [unsigned]
    rfl
  | false => exact unsigned

/- A number is read again from its plain text. -/
theorem plainValue {x : Binary64} (number : x ≠ .nan) : Numeral.ofValue x.plain = x := by
  cases x with
  | finite negative a =>
    unfold plain
    rw [Numeral.valueClear (plainClear negative a), plainSigned]
    rfl
  | infinite negative =>
    have clear : Numeral.Clear (signChars negative ++ "Infinity".toList) := by
      cases negative <;> decide
    unfold plain
    rw [Numeral.valueClear clear, infinitySigned]
    rfl
  | nan => exact absurd rfl number

/- Of numbers, only those that are the same have one text. -/
theorem plainApart {x y : Binary64} (number : x ≠ .nan) (number' : y ≠ .nan) :
    x.plain = y.plain ↔ x = y := by
  refine ⟨fun same => ?_, fun same => by rw [same]⟩
  rw [← plainValue number, same, plainValue number']

/-! Order. -/

/- Magnitudes differ in their units. -/
theorem unitsApart {a b : Magnitude} (same : a.units = b.units) : a = b := by
  have own (a : Magnitude) : nearestUnits a.units 1 = .finite false a := by
    refine nearestCell Nat.one_pos (Magnitude.cellHolds.mpr ?_)
    have room : 1 ≤ a.room := by
      rcases a.roomEither with ⟨one, _⟩ | ⟨two, _⟩ <;> omega
    have unit := twoToPos a.scale
    have part : twoTo a.scale ≤ a.room * twoTo a.scale := Nat.le_mul_of_pos_left _ room
    rw [Nat.mul_one, Magnitude.units, Nat.sub_mul, Nat.add_mul, Nat.mul_assoc]
    by_cases none : a.significand = 0
    · rw [none]
      omega
    · have some : twoTo a.scale ≤ a.significand * twoTo a.scale :=
        Nat.le_mul_of_pos_left _ (Nat.pos_of_ne_zero none)
      omega
  have both := (own a).symm.trans (same ▸ own b)
  cases both
  rfl

/- No literal is written with a sign. -/
def Unsigned (x : Binary64) : Prop := (∃ a, x = .finite false a) ∨ x = .infinite false

theorem Unsigned.number {x : Binary64} (h : x.Unsigned) : x ≠ .nan := by
  rcases h with ⟨a, rfl⟩ | rfl <;> nofun

theorem packUnsigned (significand scale : Nat) : (pack false significand scale).Unsigned := by
  unfold pack
  split
  · exact .inl ⟨_, rfl⟩
  · exact .inr rfl

theorem ofDecimalUnsigned (d : Decimal) : (ofDecimal d).Unsigned := by
  have rounded (num den : Nat) : (nearestUnits num den).Unsigned := by
    unfold nearestUnits
    dsimp only
    split <;> exact packUnsigned _ _
  unfold ofDecimal
  split
  · exact .inl ⟨_, rfl⟩
  · split
    · split
      · exact .inr rfl
      · exact rounded _ _
    · split
      · exact .inl ⟨_, rfl⟩
      · exact rounded _ _

/- Of two numbers without a sign, one is less than the other unless they are the same. -/
theorem unsignedOrder {x y : Binary64} (h : x.Unsigned) (k : y.Unsigned) :
    x = y ∧ x.lt y = false ∧ y.lt x = false ∨ x ≠ y ∧ (x.lt y = !y.lt x) := by
  rcases h with ⟨a, rfl⟩ | rfl
  · rcases k with ⟨b, rfl⟩ | rfl
    · by_cases same : a = b
      · subst same
        left
        simp [lt]
      · right
        have apart : a.units ≠ b.units := fun units => same (unitsApart units)
        refine ⟨by simpa using same, ?_⟩
        simp only [lt]
        rcases Nat.lt_or_gt_of_ne apart with less | more
        · simp [less, Nat.le_of_lt less]
        · simp [more, Nat.le_of_lt more]
    · right
      exact ⟨by simp, rfl⟩
  · rcases k with ⟨b, rfl⟩ | rfl
    · right
      exact ⟨by simp, rfl⟩
    · left
      simp [lt]

end Binary64
end Stepwise
