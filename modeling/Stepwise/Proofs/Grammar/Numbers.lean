import Stepwise.Proofs.Decimal
import Stepwise.Proofs.Grammar.Parts

/-! The numbers of the steps that are read from a text. Each is the value of a number token behind the
keyword of its step, and has no more digits than an integer is read from. -/
namespace Stepwise

/- A number of no more digits than an integer is read from. -/
def Short (id : Int) : Prop := (Decimal.digitChars id.natAbs).length ≤ Numeral.digitLimit

theorem shortDigits {s : List Char} (digits : ∀ c ∈ s, Text.isDigit c = true)
    (short : s.length ≤ Numeral.digitLimit) : Short (Decimal.ofDigitChars s : Nat) :=
  Decimal.digitsAgain digits (by decide) short

namespace Grammar
open Assembly

/- A step number among some tokens. -/
def Numbered (ts : List Token) (id : Int) : Prop :=
  ∃ number : Leaf .number, StepNumbered ts number.val ∧ id = stepId number

theorem Numbered.within {a ts : List Token} {id : Int} (h : Numbered a id) (part : a <:+: ts) :
    Numbered ts id := by
  obtain ⟨number, ⟨kind, word, inside⟩, same⟩ := h
  exact ⟨number, ⟨kind, word, inside.trans part⟩, same⟩

theorem Header.numbered (header : Header) (rest : List Token) :
    Numbered (header.tokens ++ rest) header.id :=
  ⟨header.number, ⟨header.number.2, header.word, (List.prefix_append [header.word.val, header.number.val]
    (header.colon.val :: rest)).isInfix⟩, rfl⟩

theorem Step.treeNumbered (step : Step) : Numbered step.tokens step.tree.id := by
  cases step with
  | command header content => exact header.numbered _
  | ifOnly header test left body right | ifElse header test left body right =>
    rw [Step.tokens, List.append_assoc]
    exact header.numbered _

theorem Source.treeNumbered (source : Source) :
    ∀ found ∈ source.tree.walk, Numbered source.tokens found.2.id := by
  intro found inside
  obtain ⟨d, tree, part⟩ := source.stepWritten found inside
  exact tree ▸ d.treeNumbered.within part

end Grammar

/- All step numbers that are read from a text are short. -/
theorem parseShort {ts : List Token} {p : Program} (spelled : NumbersSpelled ts)
    (read : parse ts = .ok p) : ∀ found ∈ p.walk, Short found.2.id := by
  obtain ⟨fits, d, yields, rfl⟩ := parseDerived spelled read
  intro found inside
  obtain ⟨number, numbered, same⟩ := d.treeNumbered found inside
  rw [yields] at numbered
  rw [same]
  exact shortDigits (fits.plain _ numbered) (fits.short _ numbered)

end Stepwise
