import Stepwise.Proofs.Binary64.Nearest

/-! The decimal that a magnitude is shown as rounds to that magnitude, and its digits do not end in a
zero. A grid of seventeen digits has a point for every magnitude. -/
namespace Stepwise

variable {a : Magnitude}

/-! Grids of decimals. -/

theorem gridPoint (digits : Nat) (exponent : Int) :
    (Decimal.mk digits exponent).numerator * twoTo 1074 = digits * (Grid.ofExponent exponent).up ∧
      (Decimal.mk digits exponent).denominator = (Grid.ofExponent exponent).down := by
  cases exponent with
  | ofNat k => simp [Decimal.numerator, Decimal.denominator, Grid.ofExponent, Nat.mul_assoc]
  | negSucc k => simp [Decimal.numerator, Decimal.denominator, Grid.ofExponent]

/- The step of a grid, in units. -/
theorem gridStep (front behind : Nat) :
    (Grid.ofExponent (front - behind)).up * tenTo behind =
      (Grid.ofExponent (front - behind)).down * (tenTo front * twoTo 1074) := by
  rcases Nat.le_total behind front with fewer | more
  · obtain ⟨k, rfl⟩ := Nat.exists_eq_add_of_le fewer
    have exponent : ((behind + k : Nat) : Int) - behind = .ofNat k := by
      rw [Int.ofNat_eq_natCast]
      omega
    rw [exponent, Nat.add_comm, tenToAdd]
    simp only [Grid.ofExponent, Nat.one_mul, Nat.mul_right_comm]
  · obtain ⟨k, rfl⟩ := Nat.exists_eq_add_of_le more
    cases k with
    | zero =>
      have exponent : (front : Int) - ((front + 0 : Nat) : Int) = .ofNat 0 := by simp
      rw [exponent]
      simp only [Grid.ofExponent, Nat.add_zero, Nat.one_mul, tenToZero, Nat.mul_comm]
    | succ k =>
      have exponent : (front : Int) - ((front + (k + 1) : Nat) : Int) = .negSucc k := by omega
      rw [exponent, tenToAdd]
      simp only [Grid.ofExponent, Nat.mul_comm, Nat.mul_assoc, Nat.mul_left_comm]

theorem gridPos (exponent : Int) :
    0 < (Grid.ofExponent exponent).up ∧ 0 < (Grid.ofExponent exponent).down := by
  cases exponent with
  | ofNat k => simp [Grid.ofExponent, tenToPos, twoToPos]
  | negSucc k => simp [Grid.ofExponent, tenToPos, twoToPos]

/- A point that stands for a magnitude is one of the two around it, and rounds to it. -/
theorem pointFound {g : Grid} {digits : Nat} (found : g.point? a = some digits) :
    a.cell.holds (digits * g.up) g.down = true ∧
      (digits = a.units * g.down / g.up ∨ digits = a.units * g.down / g.up + 1) := by
  unfold Grid.point? at found
  dsimp only at found
  split at found
  · rename_i below above
    split at found
    · cases found
      exact ⟨below, .inl rfl⟩
    · split at found
      · cases found
        exact ⟨above, .inr rfl⟩
      · split at found
        · cases found
          exact ⟨below, .inl rfl⟩
        · cases found
          exact ⟨above, .inr rfl⟩
  · rename_i below _
    cases found
    exact ⟨below, .inl rfl⟩
  · rename_i _ above
    cases found
    exact ⟨above, .inr rfl⟩
  · cases found

theorem pointMissing {g : Grid} (missing : g.point? a = none) :
    a.cell.holds (a.units * g.down / g.up * g.up) g.down = false ∧
      a.cell.holds ((a.units * g.down / g.up + 1) * g.up) g.down = false := by
  unfold Grid.point? at missing
  dsimp only at missing
  split at missing
  · (repeat' split at missing) <;> cases missing
  · cases missing
  · cases missing
  · exact ⟨by assumption, by assumption⟩

/- On a grid that is finer than the last place, twice as fine at a power of two, one of the two points
around a magnitude rounds to it. -/
theorem fineGrid {g : Grid} (some : a.significand ≠ 0) (step : 0 < g.up)
    (fine : g.up < twoTo a.scale * g.down)
    (finer : a.room = 1 → 2 * g.up < twoTo a.scale * g.down) : g.point? a ≠ none := by
  intro missing
  obtain ⟨below, above⟩ := pointMissing missing
  have whole : a.units * g.down = a.significand * (twoTo a.scale * g.down) := Nat.mul_assoc _ _ _
  have least : twoTo a.scale * g.down ≤ a.units * g.down := by
    rw [whole]
    exact Nat.le_mul_of_pos_left _ (Nat.pos_of_ne_zero some)
  have parts := Nat.div_add_mod (a.units * g.down) g.up
  have rest := Nat.mod_lt (a.units * g.down) step
  rw [Nat.mul_comm g.up] at parts
  simp only [Bool.eq_false_iff, ne_eq, Magnitude.cellHolds, Nat.sub_mul, Nat.add_mul, Nat.one_mul,
    Nat.mul_assoc 4, ← whole] at below above
  generalize a.units * g.down / g.up * g.up = floor at parts below above
  rcases a.roomEither with ⟨one, _⟩ | ⟨two, _⟩
  · have finer := finer one
    rw [one] at above
    omega
  · rw [two] at below above
    omega

/-! Where a magnitude stands among the powers of ten. -/

/- The digits of a magnitude in units of `10 ^ -324`, its fraction cut off. -/
def Magnitude.places (a : Magnitude) : Nat :=
  (Decimal.digitChars (a.units * tenTo 324 / twoTo 1074)).length

theorem unitsSome (some : a.significand ≠ 0) : 0 < a.units :=
  Nat.mul_pos (Nat.pos_of_ne_zero some) (twoToPos _)

theorem placesAbove (a : Magnitude) :
    a.units * tenTo 324 < tenTo a.places * twoTo 1074 := by
  have places : 0 < a.places := List.length_pos_iff.mpr Nat.toDigits_ne_nil
  have below : a.units * tenTo 324 / twoTo 1074 < tenTo a.places :=
    (Nat.length_toDigits_le_iff (by decide) places).mp (Nat.le_refl _)
  exact (Nat.div_lt_iff_lt_mul (twoToPos _)).mp below

/- No magnitude but zero is less than that. -/
theorem leastPlace : twoTo 1074 ≤ tenTo 324 := by
  have sixth : twoTo 179 ≤ tenTo 54 := by decide
  exact placesInto sixth 6

theorem placesBelow (some : a.significand ≠ 0) :
    tenTo a.places * twoTo 1074 ≤ 10 * (a.units * tenTo 324) := by
  have whole : 0 < a.units * tenTo 324 / twoTo 1074 :=
    Nat.div_pos (Nat.le_trans leastPlace (Nat.le_mul_of_pos_left _ (unitsSome some))) (twoToPos _)
  have reached : ∀ n, n + 1 = a.places → tenTo n ≤ a.units * tenTo 324 / twoTo 1074 := by
    intro n last
    cases n with
    | zero => exact whole
    | succ n =>
      refine Nat.le_of_not_lt fun short => ?_
      have fewer := (Nat.length_toDigits_le_iff (b := 10) (by decide) (Nat.succ_pos n)).mpr short
      change a.places ≤ n + 1 at fewer
      omega
  have places : 0 < a.places := List.length_pos_iff.mpr Nat.toDigits_ne_nil
  obtain ⟨n, last⟩ := Nat.exists_eq_succ_of_ne_zero (Nat.ne_of_gt places)
  have atLeast := (Nat.le_div_iff_mul_le (twoToPos _)).mp (reached n last.symm)
  rw [last, Nat.succ_eq_add_one, tenToSucc, Nat.mul_comm (tenTo n), Nat.mul_assoc]
  omega

/- The grid of decimals with a number of digits. -/
def Magnitude.grid (a : Magnitude) (count : Nat) : Grid := .ofExponent (a.ceiling - count)

theorem gridCeiling (a : Magnitude) (count : Nat) : (a.grid count).up * tenTo (324 + count) =
    (a.grid count).down * (tenTo a.places * twoTo 1074) := by
  have exponent : a.ceiling - count = a.places - ((324 + count : Nat) : Int) := by
    change ((a.places : Nat) : Int) - 324 - count = _
    omega
  unfold Magnitude.grid
  rw [exponent, gridStep]

/- A magnitude has no more digits before the point of a grid than the grid is for. -/
theorem gridAbove (a : Magnitude) (count : Nat) :
    a.units * (a.grid count).down < tenTo count * (a.grid count).up := by
  refine Nat.lt_of_mul_lt_mul_right (a := tenTo 324) ?_
  have down := (gridPos (a.ceiling - count)).2
  calc a.units * (a.grid count).down * tenTo 324
      = (a.grid count).down * (a.units * tenTo 324) := by ring
    _ < (a.grid count).down * (tenTo a.places * twoTo 1074) :=
        Nat.mul_lt_mul_of_pos_left (placesAbove a) down
    _ = tenTo count * (a.grid count).up * tenTo 324 := by
        rw [← gridCeiling, tenToAdd]
        ring

theorem gridBelow (some : a.significand ≠ 0) (count : Nat) :
    tenTo count * (a.grid count).up ≤ 10 * (a.units * (a.grid count).down) := by
  refine Nat.le_of_mul_le_mul_right (c := tenTo 324) ?_ (tenToPos 324)
  calc tenTo count * (a.grid count).up * tenTo 324
      = (a.grid count).down * (tenTo a.places * twoTo 1074) := by
        rw [← gridCeiling, tenToAdd]
        ring
    _ ≤ (a.grid count).down * (10 * (a.units * tenTo 324)) :=
        Nat.mul_le_mul_left _ (placesBelow some)
    _ = 10 * (a.units * (a.grid count).down) * tenTo 324 := by ring

/- Seventeen digits are enough. -/
theorem seventeenDigits (some : a.significand ≠ 0) : (a.grid 17).point? a ≠ none := by
  obtain ⟨below, _, _⟩ := a.normal
  obtain ⟨bit, double⟩ := topBit
  have step := (gridPos (a.ceiling - 17)).1
  have unit : 0 < twoTo a.scale * (a.grid 17).down :=
    Nat.mul_pos (twoToPos _) (gridPos (a.ceiling - 17)).2
  have first := gridBelow some 17
  have whole : a.units * (a.grid 17).down = a.significand * (twoTo a.scale * (a.grid 17).down) :=
    Nat.mul_assoc _ _ _
  have ten : tenTo 17 = 100000000000000000 := rfl
  rw [whole, ten] at first
  have most : a.significand * (twoTo a.scale * (a.grid 17).down) ≤
      twoTo 53 * (twoTo a.scale * (a.grid 17).down) := Nat.mul_le_mul_right _ (Nat.le_of_lt below)
  rw [double] at most
  refine fineGrid some step (by omega) fun one => ?_
  rcases a.roomEither with ⟨_, power, _⟩ | ⟨two, _⟩
  · rw [power, bit] at first
    omega
  · omega

theorem firstPointNext (a : Magnitude) (tries count : Nat) : a.firstPoint (tries + 1) count =
    match (a.grid count).point? a with
    | some digits => ⟨digits, a.ceiling - count⟩
    | none => a.firstPoint tries (count + 1) := rfl

/- One of the grids has a point for each magnitude. -/
theorem firstPointFound (some : a.significand ≠ 0) (tries count : Nat) (all : tries + count = 18)
    (left : count ≤ 17) : ∃ digits places, places ≤ 17 ∧ (a.grid places).point? a = .some digits ∧
      a.firstPoint tries count = ⟨digits, a.ceiling - places⟩ := by
  induction tries generalizing count with
  | zero => omega
  | succ tries ih =>
    rw [firstPointNext]
    cases found : (a.grid count).point? a with
    | some digits => exact ⟨digits, count, left, found, rfl⟩
    | none =>
      have further : count ≠ 17 := by
        rintro rfl
        exact seventeenDigits some found
      exact ih (count + 1) (by omega) (by omega)

/-! Zeros at the end. -/

theorem tensMoved (digits : Nat) (exponent : Int) :
    (Decimal.mk (10 * digits) exponent).numerator * (Decimal.mk digits (exponent + 1)).denominator =
      (Decimal.mk digits (exponent + 1)).numerator *
        (Decimal.mk (10 * digits) exponent).denominator := by
  match exponent with
  | .ofNat k =>
    have next : Int.ofNat k + 1 = .ofNat (k + 1) := rfl
    simp only [next, Decimal.numerator, Decimal.denominator, tenToSucc]
    ring
  | .negSucc 0 =>
    have next : Int.negSucc 0 + 1 = .ofNat 0 := rfl
    simp only [next, Decimal.numerator, Decimal.denominator, tenToZero, tenToSucc]
    ring
  | .negSucc (k + 1) =>
    have next : Int.negSucc (k + 1) + 1 = .negSucc k := rfl
    simp only [next, Decimal.numerator, Decimal.denominator, tenToSucc]
    ring

theorem dropZerosCovers (room : Nat) {d : Decimal} (covers : a.Covers d) :
    a.Covers (d.dropZeros room) := by
  induction room generalizing d with
  | zero => exact covers
  | succ room ih =>
    unfold Decimal.dropZeros
    split
    · rename_i zero
      refine ih ?_
      obtain ⟨digits, exponent⟩ := d
      have whole : 10 * (digits / 10) = digits := Nat.mul_div_cancel' (Nat.dvd_of_mod_eq_zero zero.2)
      have moved := tensMoved (digits / 10) exponent
      rw [whole] at moved
      unfold Magnitude.Covers at covers ⊢
      rw [← covers]
      refine Cell.holdsSame (Decimal.denominatorPos _) (Decimal.denominatorPos _) ?_
      rw [Nat.mul_right_comm, ← moved, Nat.mul_right_comm]
    · exact covers

theorem dropZerosEnds {room : Nat} {d : Decimal} (some : d.digits ≠ 0) (few : d.digits ≤ tenTo room) :
    (d.dropZeros room).digits % 10 ≠ 0 := by
  induction room generalizing d with
  | zero =>
    have one : d.digits ≤ 1 := few
    simp only [Decimal.dropZeros]
    omega
  | succ room ih =>
    rw [tenToSucc] at few
    unfold Decimal.dropZeros
    split
    · exact ih (by dsimp only; omega) (by dsimp only; omega)
    · omega

theorem shortestShown (some : a.significand ≠ 0) :
    a.Covers a.shortest ∧ a.shortest.digits % 10 ≠ 0 := by
  obtain ⟨digits, places, within, point, shown⟩ :=
    firstPointFound some 17 1 rfl (by decide)
  obtain ⟨holds, either⟩ := pointFound point
  have covers : a.Covers ⟨digits, a.ceiling - places⟩ := by
    obtain ⟨num, den⟩ := gridPoint digits (a.ceiling - places)
    unfold Magnitude.Covers
    rw [num, den]
    exact holds
  have few : digits ≤ tenTo 17 := by
    have below := (Nat.div_lt_iff_lt_mul (gridPos (a.ceiling - places)).1).mpr (gridAbove a places)
    have more : tenTo places ≤ tenTo 17 := Nat.pow_le_pow_right (by decide) within
    change a.units * (a.grid places).down / (a.grid places).up < _ at below
    omega
  unfold Magnitude.shortest
  rw [if_neg some, shown]
  exact ⟨dropZerosCovers 17 covers, dropZerosEnds (Binary64.coversSome some covers) few⟩

end Stepwise
