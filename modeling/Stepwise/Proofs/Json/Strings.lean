import Stepwise.Json.Reading
import Stepwise.Json.Written

/-! Text that has been written between marks is read back, character by character. A character beyond
the basic plane comes back from the two units that stand for it, and no other character is written as
half of such a pair. -/
namespace Stepwise.Json
open Text Reading

theorem hexRead : ∀ n < 16, hexValue? (hexDigit n) = some n := by decide

/- The number that hexadecimal digits spell. -/
def hexNumber? (digits : List Char) : Option Nat :=
  digits.foldl (fun n c => do return 16 * (← n) + (← hexValue? c)) (some 0)

theorem hexLength (width n : Nat) : (hex width n).length = width := by
  induction width generalizing n with
  | zero => rfl
  | succ width ih => rw [hex, List.length_append, ih]; rfl

theorem hexNumberRead (width : Nat) {n : Nat} (small : n < Nat.pow 16 width) :
    hexNumber? (hex width n) = some n := by
  induction width generalizing n with
  | zero =>
    have zero : n = 0 := Nat.lt_one_iff.mp small
    rw [zero]
    rfl
  | succ width ih =>
    have front : n / 16 < Nat.pow 16 width := Nat.div_lt_of_lt_mul (Nat.mul_comm _ 16 ▸ small)
    have before := ih front
    unfold hexNumber? at before ⊢
    rw [hex, List.foldl_append, before]
    simp only [List.foldl_cons, List.foldl_nil, hexRead _ (Nat.mod_lt n (by decide)),
      Option.bind_eq_bind, Option.bind_some, Option.pure_def, Option.some.injEq]
    omega

/- A unit is read back where anything stands behind it. -/
theorem unitRead {n : Nat} (small : n < 0x10000) {rest : List Char} (more : rest ≠ []) :
    unit? (hex 4 n ++ rest) = some n := by
  have long : 4 < (hex 4 n ++ rest).length := by
    have some_ := List.length_pos_iff.mpr more
    rw [List.length_append, hexLength]
    omega
  have digits : (hex 4 n ++ rest).take 4 = hex 4 n := List.take_left' (hexLength 4 n)
  rw [unit?, if_pos long, digits]
  exact hexNumberRead 4 small

/- No character is half of another. -/
theorem wholeUnit (c : Char) : isHighUnit c.toNat = false ∧ isLowUnit c.toNat = false := by
  have valid : c.toNat < 0xd800 ∨ 0xdfff < c.toNat ∧ c.toNat < 0x110000 := c.valid
  simp only [isHighUnit, isLowUnit, Bool.and_eq_false_iff, decide_eq_false_iff_not]
  omega

theorem basicRead {c : Char} (basic : c.toNat < 0x10000) {rest : List Char} (more : rest ≠ []) :
    escapedUnit (hex 4 c.toNat ++ rest) = .ok (c, 4) := by
  obtain ⟨high, low⟩ := wholeUnit c
  rw [escapedUnit, unitRead basic more]
  simp [high, low]

/- A character beyond the basic plane comes back from its two units. -/
theorem pairRead {c : Char} (beyond : 0x10000 ≤ c.toNat) {rest : List Char} (more : rest ≠ []) :
    escapedUnit (hex 4 (0xd800 + (c.toNat - 0x10000) / 0x400) ++
      (unitChars (0xdc00 + (c.toNat - 0x10000) % 0x400) ++ rest)) = .ok (c, 10) := by
  have last : c.toNat < 0x110000 := by
    have valid : c.toNat < 0xd800 ∨ 0xdfff < c.toNat ∧ c.toNat < 0x110000 := c.valid
    omega
  generalize front : 0xd800 + (c.toNat - 0x10000) / 0x400 = high
  generalize back : 0xdc00 + (c.toNat - 0x10000) % 0x400 = low
  have first : isHighUnit high = true := by
    simp only [isHighUnit, Bool.and_eq_true, decide_eq_true_eq]
    omega
  have second : isLowUnit low = true := by
    simp only [isLowUnit, Bool.and_eq_true, decide_eq_true_eq]
    omega
  have behind : (hex 4 high ++ (unitChars low ++ rest)).drop 4 = '\\' :: 'u' :: (hex 4 low ++ rest) := rfl
  have long : 6 < ('\\' :: 'u' :: (hex 4 low ++ rest)).length := by
    have some_ := List.length_pos_iff.mpr more
    simp only [List.length_append, List.length_cons, hexLength]
    omega
  have whole : 0x10000 + (high - 0xd800) * 0x400 + (low - 0xdc00) = c.toNat := by omega
  rw [escapedUnit, unitRead (by omega) (by simp [unitChars]), behind]
  dsimp only
  rw [if_pos ⟨first, long, rfl⟩, List.drop_succ_cons, List.drop_succ_cons, List.drop_zero,
    unitRead (by omega) more]
  dsimp only
  rw [if_pos second, whole, Char.ofNat_toNat]

section
variable {opening done rest : List Char} {c d e : Char} {taken : Nat}

theorem stringCloses : stringEnd opening done ('"' :: rest) = .ok (String.ofList done.reverse, rest) := by
  unfold stringEnd
  rw [if_pos rfl]

theorem stringPlain (mark : c ≠ '"') (slash : c ≠ '\\') (shown : 0x20 ≤ c.toNat) :
    stringEnd opening done (c :: rest) = stringEnd opening (c :: done) rest := by
  conv => lhs; unfold stringEnd
  rw [if_neg mark, if_neg slash, if_neg (by omega)]

theorem stringShort (unit : e ≠ 'u') (short : shortEscape? e = some d) :
    stringEnd opening done ('\\' :: e :: rest) = stringEnd opening (d :: done) rest := by
  conv => lhs; unfold stringEnd
  rw [if_neg (by decide), if_pos rfl]
  dsimp only
  rw [if_neg unit, short]

theorem stringUnit (unit : escapedUnit rest = .ok (d, taken)) :
    stringEnd opening done ('\\' :: 'u' :: rest) =
      stringEnd opening (d :: done) (rest.drop taken) := by
  conv => lhs; unfold stringEnd
  rw [if_neg (by decide), if_pos rfl]
  dsimp only
  rw [if_pos rfl, unit]

end

/- What has been written of a character is read as that character. -/
theorem characterRead (opening done : List Char) (c : Char) {rest : List Char} (more : rest ≠ []) :
    stringEnd opening done (escapeChars c ++ rest) = stringEnd opening (c :: done) rest := by
  unfold escapeChars
  split
  · subst c; exact stringShort (by decide) rfl
  split
  · subst c; exact stringShort (by decide) rfl
  split
  · subst c; exact stringShort (by decide) rfl
  split
  · subst c; exact stringShort (by decide) rfl
  split
  · subst c; exact stringShort (by decide) rfl
  split
  · subst c; exact stringShort (by decide) rfl
  split
  · subst c; exact stringShort (by decide) rfl
  split
  · rename_i mark slash _ _ _ _ _ plain
    exact stringPlain mark slash plain.1
  split
  · rename_i basic
    exact stringUnit (basicRead basic more)
  · rename_i beyond
    rw [List.append_assoc]
    exact stringUnit (pairRead (Nat.le_of_not_lt beyond) more)

/- A text between marks is read back, up to the closing mark. -/
theorem textRead (opening done s rest : List Char) :
    stringEnd opening done (s.flatMap escapeChars ++ '"' :: rest) =
      .ok (String.ofList (done.reverse ++ s), rest) := by
  induction s generalizing done with
  | nil => rw [List.flatMap_nil, List.nil_append, stringCloses, List.append_nil]
  | cons c s ih =>
    rw [List.flatMap_cons, List.append_assoc, characterRead opening done c (by simp), ih,
      List.reverse_cons, List.append_assoc, List.singleton_append]

end Stepwise.Json
