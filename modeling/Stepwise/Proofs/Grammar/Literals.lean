import Stepwise.Proofs.Grammar.Faults
import Stepwise.Proofs.Grammar.Rendered

/-! Numbers as text and as literals. The text of a number is read as that number, and as long as it has
no sign it is one token. Equality of literals is that of their texts and order that of their values;
both go by the same numbers. -/
namespace Stepwise
open Lexer Text

/-- Equality, less and greater each have a truth value, and just one of them is true. -/
def Expr.OneHolds (a b : Expr) : Prop :=
  ∀ (t : Tables) (line : Option Nat), ∃ equal less greater : Bool,
    (Expr.binary a "==" b line).condition t = .ok equal ∧
    (Expr.binary a "<" b line).condition t = .ok less ∧
    (Expr.binary a ">" b line).condition t = .ok greater ∧
    [equal, less, greater].count true = 1

namespace Binary64

theorem plainUnmarked (negative : Bool) (a : Magnitude) :
    'e' ∉ (finite negative a).plain.toList ∧ 'E' ∉ (finite negative a).plain.toList ∧
      ¬ ['.', '0'] <:+ (finite negative a).plain.toList := by
  obtain ⟨shape, spelled, ends⟩ := plainFinite negative a
  have characters : ∀ c ∈ (finite negative a).plain.toList, isDigit c = true ∨ c = '.' ∨ c = '-' := by
    intro c inside
    rw [shape] at inside
    rcases List.mem_append.mp inside with sign | body
    · cases negative with
      | false => cases sign
      | true => exact .inr (.inr (List.mem_singleton.mp sign))
    · exact (spelled.characters c body).imp_right .inl
  refine ⟨fun inside => ?_, fun inside => ?_, fun ending => ?_⟩
  · exact absurd (characters _ inside) (by decide)
  · exact absurd (characters _ inside) (by decide)
  · rw [shape] at ending
    cases negative with
    | false => exact ends ending
    | true =>
      rcases List.suffix_cons_iff.mp ending with whole | body
      · exact absurd (List.cons.inj whole).1 (by decide)
      · exact ends body

theorem plainToken (a : Magnitude) : tokenize (finite false a).plain =
    .ok [⟨.number, (finite false a).plain, some (finite false a).plain, 1⟩, .endAt 1] := by
  have spelled := (plainPositive a).2
  have oneLine : newlines (finite false a).plain.toList = 0 := by
    refine List.count_eq_zero.mpr fun inside => ?_
    exact absurd (spelled.characters _ inside) (by decide)
  rw [tokenizeLexeme (.number _ spelled), literal?, String.ofList_toList, oneLine]

theorem plainDeclared (a : Magnitude) : ∃ ts p, tokenize ("let it = " ++ (finite false a).plain) = .ok ts ∧
    parse ts = .ok p ∧ p.Declares (.number (finite false a) none) := by
  have regular : (Expr.number (finite false a) none).Regular := .operand (.number (.inl ⟨a, rfl⟩) none)
  obtain ⟨text, ts, p, shown, tokenized, read, declares⟩ := regularParsed regular ⟨false, a, rfl⟩
  obtain rfl : (finite false a).plain = text := Option.some.inj shown
  exact ⟨ts, p, tokenized, read, declares⟩

/- Equality of the texts is equality of the numbers, and then neither is less. -/
theorem unsignedOneHolds {x y : Binary64} (h : x.Unsigned) (k : y.Unsigned) (line line' : Option Nat) :
    (Expr.number x line).OneHolds (.number y line') := by
  intro t last
  have truth {symbol : String} {c : Comparison} (known : Comparison.ofSymbol? symbol = some c) :
      (Expr.binary (.number x line) symbol (.number y line') last).condition t =
        .ok (c.holds x.plain y.plain) := by
    rw [Expr.conditionCompared known rfl rfl, compare, known]
  have readX := plainValue h.number
  have readY := plainValue k.number
  have less : Comparison.less.holds x.plain y.plain = x.lt y := by
    simp only [Comparison.holds, readX, readY]
  have greater : Comparison.greater.holds x.plain y.plain = y.lt x := by
    simp only [Comparison.holds, readX, readY]
  have equal : Comparison.equal.holds x.plain y.plain = true ↔ x = y := by
    simp only [Comparison.holds, beq_iff_eq, plainApart h.number k.number]
  refine ⟨_, _, _, truth (c := .equal) (by decide), truth (c := .less) (by decide),
    truth (c := .greater) (by decide), ?_⟩
  rw [less, greater]
  rcases unsignedOrder h k with ⟨same, below, above⟩ | ⟨apart, order⟩
  · simp [equal.mpr same, below, above]
  · rw [Bool.eq_false_iff.mpr fun holds => apart (equal.mp holds), order]
    cases y.lt x <;> rfl

end Binary64

/- Each number but a nan is read again from its text, which has no exponent and does not end in a
point and a zero. The text of a finite number without a sign is a single token, and a literal of that
number. Of any two literals of a text, one condition of equality and order holds. -/
theorem numberReadAgain :
    (∀ x : Binary64, x ≠ .nan → Numeral.ofValue x.plain = x) ∧
    (∀ negative a, 'e' ∉ (Binary64.finite negative a).plain.toList ∧
      'E' ∉ (Binary64.finite negative a).plain.toList ∧
      ¬ ['.', '0'] <:+ (Binary64.finite negative a).plain.toList) ∧
    (∀ a x, x = Binary64.finite false a →
      tokenize x.plain = .ok [⟨.number, x.plain, some x.plain, 1⟩, .endAt 1] ∧
      ∃ ts p, tokenize ("let it = " ++ x.plain) = .ok ts ∧ parse ts = .ok p ∧
        p.Declares (.number x none)) ∧
    (∀ source ts p, tokenize source = .ok ts → parse ts = .ok p →
      ∀ e ∈ p.expressions, ∀ f ∈ p.expressions, ∀ x y line line',
        .number x line ∈ e.postorder → .number y line' ∈ f.postorder →
        (Expr.number x line).OneHolds (.number y line')) := by
  have literal {source : String} {ts : List Token} {p : Program} (tokenized : tokenize source = .ok ts)
      (read : parse ts = .ok p) {e : Expr} (inside : e ∈ p.expressions) {x : Binary64}
      {line : Option Nat} (among : .number x line ∈ e.postorder) : x.Unsigned := by
    cases (parseRegular tokenized read e inside).nodes _ among with
    | operand single =>
      cases single with
      | number unsigned => exact unsigned
  refine ⟨fun x => Binary64.plainValue, Binary64.plainUnmarked, ?_, ?_⟩
  · rintro a x rfl
    exact ⟨Binary64.plainToken a, Binary64.plainDeclared a⟩
  · intro source ts p tokenized read e inside f inside' x y line line' among among'
    exact Binary64.unsignedOneHolds (literal tokenized read inside among)
      (literal tokenized read inside' among') line line'

/- The least number that is not zero. Its text has more than three hundred digits. -/
def leastNumber : Binary64 := .finite false ⟨1, 0, by decide⟩

theorem leastNumberReadAgain :
    leastNumber ≠ .nan ∧ Numeral.ofValue leastNumber.plain = leastNumber ∧
      ∃ ts p e line, tokenize ("let it = " ++ leastNumber.plain) = .ok ts ∧ parse ts = .ok p ∧
        e ∈ p.expressions ∧ .number leastNumber line ∈ e.postorder ∧
        (Expr.number leastNumber line).OneHolds (.number leastNumber line) := by
  have number : leastNumber ≠ .nan := nofun
  obtain ⟨again, -, single, compared⟩ := numberReadAgain
  obtain ⟨-, ts, p, tokenized, read, d, one, -, -, -, value⟩ := single _ leastNumber rfl
  obtain ⟨line, same⟩ : ∃ line, d.value = .number leastNumber line := by
    cases found : d.value with
    | number x line =>
      rw [found] at value
      cases value
      exact ⟨line, rfl⟩
    | _ => simp [found, Expr.bare] at value
  have inside : .number leastNumber line ∈ p.expressions := by
    simp [Program.expressions, one, same]
  have among : .number leastNumber line ∈ (Expr.number leastNumber line).postorder := by
    simp [Expr.postorder]
  exact ⟨number, again _ number, ts, p, _, line, tokenized, read, inside, among,
    compared _ _ _ tokenized read _ inside _ inside _ _ _ _ among among⟩

end Stepwise
