import Stepwise.Proofs.Expr.Outcome
import Stepwise.Proofs.Grammar.Parts

/-! Programs of which no part is missing. A program that is supplied as a value may lack an expression
or the content of a step; what is read from a text lacks nothing. -/
namespace Stepwise

structure Step.Supplied (s : Step) : Prop where
  content : s.isAbsent = false
  expressions : ∀ e ∈ s.expressions, e.Supplied

structure Program.Supplied (p : Program) : Prop where
  values : ∀ d ∈ p.declarations, d.value.Supplied
  steps : ∀ entry ∈ p.walk, entry.2.Supplied

namespace Grammar

theorem Primary.treeSupplied (primary : Primary) : primary.tree.Supplied := by
  cases primary with
  | name word part => cases part <;> trivial
  | _ => trivial

/- Each operator takes what stands before it as its left operand. -/
theorem linkedSupplied {left : Expr} (h : left.Supplied) (links : List (Operator × Primary)) :
    (linked left links).Supplied := by
  induction links generalizing left with
  | nil => exact h
  | cons link rest ih => exact ih ⟨h, link.2.treeSupplied⟩

theorem Chain.treeSupplied (chain : Chain) : chain.tree.Supplied :=
  linkedSupplied chain.first.treeSupplied chain.more

theorem Command.treesSupplied (command : Command) : ∀ e ∈ command.trees, e.Supplied := by
  intro e inside
  obtain ⟨name, _ | ⟨left, _ | listing, right⟩⟩ := command
  · cases inside
  · cases inside
  · rcases List.mem_cons.mp inside with rfl | later
    · exact listing.first.treeSupplied
    · obtain ⟨next, _, rfl⟩ := List.mem_map.mp later
      exact next.2.treeSupplied

theorem Test.treeSupplied (test : Test) : ∀ e ∈ [test.condition.tree], e.Supplied := by
  intro e inside
  rw [List.mem_singleton.mp inside]
  exact test.condition.treeSupplied

theorem Step.treeSupplied (step : Step) : step.tree.Supplied := by
  cases step with
  | command header content => exact ⟨rfl, content.treesSupplied⟩
  | ifOnly header test left body right | ifElse header test left body right =>
    exact ⟨rfl, test.treeSupplied⟩

theorem Source.treeSupplied (source : Source) : source.tree.Supplied where
  values d inside := by
    obtain ⟨written, rfl, -⟩ := source.declarationWritten d inside
    exact written.value.treeSupplied
  steps entry inside := by
    obtain ⟨written, tree, -⟩ := source.stepWritten entry inside
    exact tree ▸ written.treeSupplied

end Grammar

theorem parseSupplied {ts : List Token} {p : Program} (spelled : NumbersSpelled ts)
    (read : parse ts = .ok p) : p.Supplied := by
  obtain ⟨_, d, _, rfl⟩ := parseDerived spelled read
  exact d.treeSupplied

end Stepwise
