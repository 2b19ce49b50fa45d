import Stepwise.Proofs.Binary64.Nearest

/-! Reading a number keeps the order of decimals. Whatever is rounded stays in order, with a magnitude too
large for any double above all others; and whole numbers that need no more bits than a double has are
not rounded. -/
namespace Stepwise

theorem twoToLt {m n : Nat} (h : m < n) : twoTo m < twoTo n := Nat.pow_lt_pow_right (by decide) h

section
variable {num den num' den' : Nat}

theorem roundBounds (num den : Nat) :
    num / den ≤ roundHalfEven num den ∧ roundHalfEven num den ≤ num / den + 1 := by
  unfold roundHalfEven
  dsimp only
  repeat' split
  all_goals omega

/- A ratio that is no larger has no larger whole part, and with the same whole part no more left over. -/
theorem partsOrdered (some : 0 < den) (some' : 0 < den') (le : num * den' ≤ num' * den) :
    num / den ≤ num' / den' ∧
      (num / den = num' / den' → num % den * den' ≤ num' % den' * den) := by
  have parts : den * (num / den) + num % den = num := Nat.div_add_mod num den
  have parts' : den' * (num' / den') + num' % den' = num' := Nat.div_add_mod num' den'
  constructor
  · rw [Nat.le_div_iff_mul_le some']
    refine Nat.le_of_mul_le_mul_right (c := den) ?_ some
    calc num / den * den' * den = den * (num / den) * den' := by ring
      _ ≤ num * den' := Nat.mul_le_mul_right den' (Nat.mul_div_le num den)
      _ ≤ num' * den := le
  · intro same
    rw [← same] at parts'
    have whole : num * den' = den * (num / den) * den' + num % den * den' := by
      rw [← Nat.add_mul, parts]
    have whole' : num' * den = den * (num / den) * den' + num' % den' * den := by
      calc num' * den = (den' * (num / den) + num' % den') * den := by rw [parts']
        _ = den * (num / den) * den' + num' % den' * den := by ring
    omega

/- Rounding to whole numbers keeps the order. -/
theorem roundOrdered (some : 0 < den) (some' : 0 < den') (le : num * den' ≤ num' * den) :
    roundHalfEven num den ≤ roundHalfEven num' den' := by
  obtain ⟨whole, rest⟩ := partsOrdered some some' le
  rcases Nat.lt_or_eq_of_le whole with less | same
  · exact Nat.le_trans (roundBounds num den).2 (Nat.le_trans less (roundBounds num' den').1)
  · -- the whole parts are the same, and the halves of what is left over decide
    have left := rest same
    have below {k k' : Nat} (h : k * den' ≤ k' * den) : den ≤ k → den' ≤ k' := by
      intro reached
      refine Nat.le_of_mul_le_mul_right (c := den) ?_ some
      calc den' * den = den * den' := Nat.mul_comm _ _
        _ ≤ k * den' := Nat.mul_le_mul_right den' reached
        _ ≤ k' * den := h
    have above {k k' : Nat} (h : k * den' ≤ k' * den) : den < k → den' < k' := by
      intro passed
      refine Nat.lt_of_mul_lt_mul_right (a := den) ?_
      calc den' * den = den * den' := Nat.mul_comm _ _
        _ < k * den' := Nat.mul_lt_mul_of_pos_right passed some'
        _ ≤ k' * den := h
    have double : 2 * (num % den) * den' ≤ 2 * (num' % den') * den := by
      rw [Nat.mul_assoc, Nat.mul_assoc]
      exact Nat.mul_le_mul_left 2 left
    have half := below double
    have more := above double
    unfold roundHalfEven
    dsimp only
    rw [← same]
    repeat' split
    all_goals omega

theorem roundWhole (m : Nat) (some : 0 < den) : roundHalfEven (m * den) den = m :=
  roundNear (by omega) (by omega) some (.inr ⟨by omega, by omega⟩)

end

namespace Binary64

/- The units that a ratio is rounded to if no number of them is too large. -/
def reach (num den : Nat) : Nat :=
  roundHalfEven num (den * twoTo (scaleFor (num / den))) * twoTo (scaleFor (num / den))

section
variable {num den num' den' : Nat}

theorem scaleCovers (q : Nat) : q < twoTo (scaleFor q + 53) := by
  have bits : q < twoTo (q.log2 + 1) := Nat.lt_log2_self
  have room : q.log2 + 1 ≤ scaleFor q + 53 := by
    unfold scaleFor
    omega
  exact Nat.lt_of_lt_of_le bits (twoToLe room)

theorem scaleNeeded {q : Nat} (scaled : scaleFor q ≠ 0) : twoTo (scaleFor q + 52) ≤ q := by
  unfold scaleFor at scaled ⊢
  have some : q ≠ 0 := by
    rintro rfl
    exact scaled rfl
  rw [show q.log2 + 1 - 53 + 52 = q.log2 by omega]
  exact (Nat.le_log2 some).mp (Nat.le_refl _)

theorem scaleOrdered {q q' : Nat} (le : q ≤ q') : scaleFor q ≤ scaleFor q' :=
  scaleForLe (Nat.lt_of_le_of_lt le (scaleCovers q'))

/- The significand has at most 53 bits, and all of them where there is a scale, unless it is rounded up to
the next power. -/
theorem significandBounds (num den : Nat) :
    roundHalfEven num (den * twoTo (scaleFor (num / den))) ≤ twoTo 53 ∧
      (scaleFor (num / den) ≠ 0 →
        twoTo 52 ≤ roundHalfEven num (den * twoTo (scaleFor (num / den)))) := by
  obtain ⟨atLeast, atMost⟩ := roundBounds num (den * twoTo (scaleFor (num / den)))
  rw [← Nat.div_div_eq_div_mul] at atLeast atMost
  have unit := twoToPos (scaleFor (num / den))
  constructor
  · have covers := scaleCovers (num / den)
    rw [Nat.add_comm, twoToAdd] at covers
    have below : num / den / twoTo (scaleFor (num / den)) < twoTo 53 :=
      (Nat.div_lt_iff_lt_mul unit).mpr covers
    omega
  · intro scaled
    have needed := scaleNeeded scaled
    rw [Nat.add_comm, twoToAdd] at needed
    exact Nat.le_trans ((Nat.le_div_iff_mul_le unit).mpr needed) atLeast

theorem limits : twoTo 53 * twoTo 2045 = twoTo 2098 ∧ twoTo 52 * twoTo 2046 = twoTo 2098 :=
  ⟨(twoToAdd 53 2045).symm, (twoToAdd 52 2046).symm⟩

theorem packReaches {significand scale : Nat} (bits : significand < twoTo 53)
    (top : scale ≠ 0 → twoTo 52 ≤ significand) :
    (∃ a, pack false significand scale = .finite false a ∧ a.units = significand * twoTo scale ∧
        significand * twoTo scale < twoTo 2098) ∨
      pack false significand scale = .infinite false ∧ twoTo 2098 ≤ significand * twoTo scale := by
  by_cases normal : Normal significand scale
  · refine .inl ⟨⟨significand, scale, normal⟩, dif_pos normal, rfl, ?_⟩
    rw [← limits.1]
    exact Nat.mul_lt_mul_of_lt_of_le bits (twoToLe normal.2.1) (twoToPos _)
  · refine .inr ⟨dif_neg normal, ?_⟩
    have large : 2046 ≤ scale := by
      by_contra small
      refine normal ⟨bits, by omega, ?_⟩
      by_cases none : scale = 0
      · exact .inl none
      · exact .inr (top none)
    rw [← limits.2]
    exact Nat.mul_le_mul (top (by omega)) (twoToLe large)

/- What a ratio is rounded to, by its units. -/
theorem nearestReaches (num den : Nat) :
    (∃ a, nearestUnits num den = .finite false a ∧ a.units = reach num den ∧ reach num den < twoTo 2098) ∨
      nearestUnits num den = .infinite false ∧ twoTo 2098 ≤ reach num den := by
  obtain ⟨most, least⟩ := significandBounds num den
  unfold nearestUnits reach
  dsimp only
  split
  · rename_i full
    have carried : twoTo 53 * twoTo (scaleFor (num / den)) =
        twoTo 52 * twoTo (scaleFor (num / den) + 1) := by
      rw [← twoToAdd, ← twoToAdd]
      congr 1
      omega
    rw [full, carried]
    exact packReaches (by decide) fun _ => Nat.le_refl _
  · rename_i free
    exact packReaches (Nat.lt_of_le_of_ne most free) least

theorem reachOrdered (some : 0 < den) (some' : 0 < den') (le : num * den' ≤ num' * den) :
    reach num den ≤ reach num' den' := by
  have whole := (partsOrdered some some' le).1
  rcases Nat.lt_or_eq_of_le (scaleOrdered whole) with less | same
  · have most := (significandBounds num den).1
    have least := (significandBounds num' den').2 (by omega)
    -- one scale above, even the least significand is worth no less than the largest one
    calc reach num den ≤ twoTo 53 * twoTo (scaleFor (num / den)) := Nat.mul_le_mul_right _ most
      _ = twoTo 52 * twoTo (scaleFor (num / den) + 1) := by
          rw [← twoToAdd, ← twoToAdd]
          congr 1
          omega
      _ ≤ twoTo 52 * twoTo (scaleFor (num' / den')) := Nat.mul_le_mul_left _ (twoToLe less)
      _ ≤ reach num' den' := Nat.mul_le_mul_right _ least
  · unfold reach
    rw [← same]
    refine Nat.mul_le_mul_right _ (roundOrdered ?_ ?_ ?_)
    · exact Nat.mul_pos some (twoToPos _)
    · exact Nat.mul_pos some' (twoToPos _)
    · rw [← Nat.mul_assoc, ← Nat.mul_assoc]
      exact Nat.mul_le_mul_right _ le

theorem nearestOrdered (some : 0 < den) (some' : 0 < den') (le : num * den' ≤ num' * den) :
    (nearestUnits num den).le (nearestUnits num' den') = true := by
  have units := reachOrdered some some' le
  rcases nearestReaches num den with ⟨a, first, unitsFirst, _⟩ | ⟨first, large⟩
  · rcases nearestReaches num' den' with ⟨b, second, unitsSecond, _⟩ | ⟨second, _⟩
    · rw [first, second]
      simp [Binary64.le, lt, isNan, unitsFirst, unitsSecond, units]
    · rw [first, second]
      rfl
  · rcases nearestReaches num' den' with ⟨b, second, unitsSecond, small⟩ | ⟨second, _⟩
    · omega
    · rw [first, second]
      rfl

/- So little of a unit that nothing is left of it. -/
theorem nearestNothing (some : 0 < den) (little : 2 * num < den) : nearestUnits num den = zero := by
  have none : num / den = 0 := Nat.div_eq_of_lt (by omega)
  have rounded : roundHalfEven num (den * twoTo 0) = 0 := by
    rw [show den * twoTo 0 = den from Nat.mul_one den]
    exact roundNear (by omega) (by omega) some (.inl rfl)
  unfold nearestUnits
  dsimp only
  rw [none, show scaleFor 0 = 0 from rfl, rounded]
  rfl

theorem nearestBeyond (some : 0 < den) (large : twoTo 2098 * den ≤ num) :
    nearestUnits num den = .infinite false := by
  have whole : twoTo 2098 ≤ num / den := (Nat.le_div_iff_mul_le some).mpr large
  rcases nearestReaches num den with ⟨_, _, _, small⟩ | ⟨infinite, _⟩
  · exfalso
    have scaled : 2046 ≤ scaleFor (num / den) := scaleForGe whole
    have least := (significandBounds num den).2 (by omega)
    have reached : twoTo 52 * twoTo 2046 ≤ reach num den :=
      Nat.mul_le_mul least (twoToLe scaled)
    rw [limits.2] at reached
    omega
  · exact infinite

/- A ratio of whole units is not rounded if its units fill a scale. -/
theorem reachWhole {significand scale : Nat} (some : 0 < den)
    (scaled : scaleFor (significand * twoTo scale) = scale) :
    reach (significand * twoTo scale * den) den = significand * twoTo scale := by
  unfold reach
  rw [Nat.mul_div_cancel _ some, scaled,
    show significand * twoTo scale * den = significand * (den * twoTo scale) by ring,
    roundWhole significand (Nat.mul_pos some (twoToPos scale))]

end
end Binary64

namespace Decimal

/- Digits and a power of ten are worth as much as their ratio, also where no power is taken. -/
theorem nearest (d : Decimal) :
    Binary64.ofDecimal d = Binary64.nearestUnits (d.numerator * twoTo 1074) d.denominator := by
  obtain ⟨digits, exponent⟩ := d
  unfold Binary64.ofDecimal
  dsimp only
  by_cases none : digits = 0
  · have nothing : (⟨digits, exponent⟩ : Decimal).numerator = 0 := by
      unfold numerator
      cases exponent <;> simp [none]
    rw [if_pos none, nothing, Nat.zero_mul]
    exact (Binary64.nearestNothing (denominatorPos _) (denominatorPos _)).symm
  · rw [if_neg none]
    cases exponent with
    | ofNat k =>
      dsimp only
      split
      · -- a power so large that no ratio is taken is beyond all doubles
        rename_i large
        refine (Binary64.nearestBeyond Nat.one_pos ?_).symm
        have bits : twoTo digits.log2 ≤ digits := (Nat.le_log2 none).mp (Nat.le_refl _)
        calc twoTo 2098 * 1 ≤ twoTo (digits.log2 + 3 * k + 1074) := by
              rw [Nat.mul_one]
              exact twoToLe (by omega)
          _ = twoTo digits.log2 * twoTo (3 * k) * twoTo 1074 := by rw [twoToAdd, twoToAdd]
          _ ≤ digits * tenTo k * twoTo 1074 :=
            Nat.mul_le_mul_right _ (Nat.mul_le_mul bits (threeInto k))
      · rfl
    | negSucc k =>
      dsimp only
      split
      · -- and one so small leaves less than half a unit
        rename_i small
        refine (Binary64.nearestNothing (tenToPos _) ?_).symm
        have bits : digits < twoTo (digits.log2 + 1) := Nat.lt_log2_self
        have places : twoTo 1075 * twoTo (digits.log2 + 1) ≤ tenTo (k + 1) := by
          rw [← twoToAdd]
          exact Nat.le_trans (twoToLe (by omega)) (threeInto (k + 1))
        calc 2 * (digits * twoTo 1074) = twoTo 1075 * digits := by
              rw [show twoTo 1075 = twoTo 1 * twoTo 1074 from twoToAdd 1 1074, show twoTo 1 = 2 from rfl]
              ring
          _ < twoTo 1075 * twoTo (digits.log2 + 1) := Nat.mul_lt_mul_of_pos_left bits (twoToPos _)
          _ ≤ tenTo (k + 1) := places
      · rfl

theorem ofDecimalOrdered {d e : Decimal}
    (le : d.numerator * e.denominator ≤ e.numerator * d.denominator) :
    (Binary64.ofDecimal d).le (Binary64.ofDecimal e) = true := by
  rw [nearest, nearest]
  refine Binary64.nearestOrdered d.denominatorPos e.denominatorPos ?_
  rw [Nat.mul_right_comm, Nat.mul_right_comm e.numerator]
  exact Nat.mul_le_mul_right _ le

end Decimal

namespace Binary64

/- A whole number that needs no more bits than a double has is not rounded. -/
theorem reachNumber {n den : Nat} (some : 0 < den) (short : n ≤ twoTo 53) :
    reach (n * twoTo 1074 * den) den = n * twoTo 1074 := by
  rcases Nat.lt_or_eq_of_le short with less | full
  · have low : scaleFor (n * twoTo 1074) ≤ 1074 := by
      refine scaleForLe ?_
      rw [Nat.add_comm, twoToAdd]
      exact Nat.mul_lt_mul_of_pos_right less (twoToPos _)
    obtain ⟨more, split⟩ := Nat.exists_eq_add_of_le low
    have filled : n * twoTo 1074 = n * twoTo more * twoTo (scaleFor (n * twoTo 1074)) := by
      conv_lhs => rw [split, Nat.add_comm, twoToAdd, ← Nat.mul_assoc]
    generalize scale : scaleFor (n * twoTo 1074) = k at filled
    rw [filled] at scale ⊢
    exact reachWhole some scale
  · have filled : n * twoTo 1074 = twoTo 52 * twoTo 1075 := by
      rw [full, ← twoToAdd, ← twoToAdd]
    have scale : scaleFor (twoTo 52 * twoTo 1075) = 1075 := by
      rw [← twoToAdd]
      exact Nat.le_antisymm (scaleForLe (twoToLt (by decide))) (scaleForGe (twoToLe (by decide)))
    rw [filled]
    exact reachWhole some scale

end Binary64

theorem Decimal.ofDecimalWhole {d : Decimal} {n : Nat} (whole : d.numerator = n * d.denominator)
    (short : n ≤ twoTo 53) :
    ∃ a, Binary64.ofDecimal d = .finite false a ∧ a.units = n * twoTo 1074 := by
  have units := Binary64.reachNumber d.denominatorPos short
  have arranged : d.numerator * twoTo 1074 = n * twoTo 1074 * d.denominator := by
    rw [whole]
    ring
  rw [nearest, arranged]
  rcases Binary64.nearestReaches (n * twoTo 1074 * d.denominator) d.denominator with
    ⟨a, finite, reached, _⟩ | ⟨_, large⟩
  · exact ⟨a, finite, reached.trans units⟩
  · exfalso
    have small : n * twoTo 1074 < twoTo 2098 := by
      calc n * twoTo 1074 ≤ twoTo 53 * twoTo 1074 := Nat.mul_le_mul_right _ short
        _ < twoTo 53 * twoTo 2045 :=
          Nat.mul_lt_mul_of_pos_left (twoToLt (by decide)) (twoToPos _)
        _ = twoTo 2098 := Binary64.limits.1
    omega

end Stepwise
