import Stepwise.Proofs.Grammar.Acceptance
import Stepwise.Proofs.Token.Relaid

/-! The parts of a program that is read from a text. Each of its steps is the tree of a step that is
written in the text, and each of its expressions the tree of a chain. -/
namespace Stepwise

def binaryOperators : List String := ["+", "==", "!=", ">", "<", ">=", "<="]

/-- The values of the declarations, and the arguments and conditions of the steps. -/
def Program.expressions (p : Program) : List Expr :=
  p.declarations.map (·.value) ++ p.walk.flatMap (·.2.expressions)

namespace Grammar

mutual

theorem Step.walkWritten : (step : Step) →
    ∀ s ∈ step.tree.walk, ∃ d : Step, d.tree = s ∧ d.tokens <:+: step.tokens
  | .command header content => by
      intro s inside
      rw [List.mem_singleton.mp inside]
      exact ⟨.command header content, rfl, List.infix_rfl⟩
  | .ifOnly header test left body right => by
      intro s inside
      rcases List.mem_cons.mp inside with rfl | within
      · exact ⟨.ifOnly header test left body right, rfl, List.infix_rfl⟩
      · obtain ⟨d, same, part⟩ := stepTreesWritten body s within
        refine ⟨d, same, part.trans ⟨header.tokens ++ test.tokens ++ [left.val], [right.val], ?_⟩⟩
        simp [Step.tokens]
  | .ifElse header test left body right word left' other right' => by
      intro s inside
      rcases List.mem_cons.mp inside with rfl | within
      · exact ⟨.ifElse header test left body right word left' other right', rfl, List.infix_rfl⟩
      · rcases List.mem_append.mp within with here | there
        · obtain ⟨d, same, part⟩ := stepTreesWritten body s here
          refine ⟨d, same, part.trans ⟨header.tokens ++ test.tokens ++ [left.val],
            right.val :: word.val :: left'.val :: (stepTokens other ++ [right'.val]), ?_⟩⟩
          simp [Step.tokens]
        · obtain ⟨d, same, part⟩ := stepTreesWritten other s there
          refine ⟨d, same, part.trans ⟨header.tokens ++ test.tokens ++
            left.val :: (stepTokens body ++ [right.val, word.val, left'.val]), [right'.val], ?_⟩⟩
          simp [Step.tokens]

theorem stepTreesWritten : (steps : List Step) →
    ∀ s ∈ Stepwise.Step.walkAll (stepTrees steps), ∃ d : Step, d.tree = s ∧ d.tokens <:+: stepTokens steps
  | [] => nofun
  | step :: rest => fun s inside => by
      rcases List.mem_append.mp inside with here | later
      · obtain ⟨d, same, part⟩ := step.walkWritten s here
        exact ⟨d, same, part.trans (List.prefix_append _ _).isInfix⟩
      · obtain ⟨d, same, part⟩ := stepTreesWritten rest s later
        exact ⟨d, same, part.trans (List.suffix_append _ _).isInfix⟩

end

theorem Source.itemPart {source : Source} {item : Item} (listed : item ∈ source) :
    item.tokens <:+: source.tokens := by
  obtain ⟨before, after, rfl⟩ := List.append_of_mem listed
  exact ⟨Source.tokens before, Source.tokens after, by simp [Source.tokens]⟩

theorem Source.declarationWritten (source : Source) : ∀ tree ∈ source.tree.declarations,
    ∃ d : Declaration, d.tree = tree ∧ d.tokens <:+: source.tokens := by
  intro tree among
  obtain ⟨item, listed, same⟩ := List.mem_filterMap.mp among
  cases item with
  | declaration d => exact ⟨d, Option.some.inj same, Source.itemPart listed⟩
  | workflow w => cases same

theorem Source.stepWritten (source : Source) : ∀ found ∈ source.tree.walk,
    ∃ d : Step, d.tree = found.2 ∧ d.tokens <:+: source.tokens := by
  intro found inside
  obtain ⟨tree, among, within⟩ := List.mem_flatMap.mp inside
  obtain ⟨s, walked, rfl⟩ := List.mem_map.mp within
  obtain ⟨item, listed, same⟩ := List.mem_filterMap.mp among
  cases item with
  | declaration d => cases same
  | workflow w =>
    cases same
    obtain ⟨d, tree, part⟩ := stepTreesWritten w.steps s walked
    have inWorkflow : stepTokens w.steps <:+: w.tokens :=
      ⟨[w.word.val, w.name.val, w.left.val], [w.right.val], by simp [Workflow.tokens]⟩
    exact ⟨d, tree, part.trans (inWorkflow.trans (Source.itemPart listed))⟩

/-! Operands that are linked to a chain. -/

section
variable {e : Expr} {front behind links : List (Operator × Primary)} {link : Operator × Primary}

theorem linkedNext : linked e (link :: links) =
    linked (.binary e link.1.val.lexeme link.2.tree (some link.1.val.line)) links := rfl

theorem linkedAppend : linked e (front ++ behind) = linked (linked e front) behind :=
  List.foldl_append

theorem linkedLast : linked e (links ++ [link]) =
    .binary (linked e links) link.1.val.lexeme link.2.tree (some link.1.val.line) :=
  List.foldl_concat ..

theorem linkTokensLast : linkTokens (links ++ [link]) =
    linkTokens links ++ link.1.val :: link.2.tokens := by
  simp [linkTokens]

end

theorem operatorSpelled {op : Operator} (written : op.val.Written) :
    op.val.lexeme ∈ binaryOperators := by
  obtain ⟨m, kind, joins⟩ := op.2
  have lexeme := written.lexeme
  rw [kind] at lexeme
  have spelled : op.val.lexeme = String.ofList m.spelling := by
    rw [← lexeme.markSpelling, String.ofList_toList]
  rw [spelled]
  cases m with
  | plus | equalEqual | notEqual | greater | less | greaterEqual | lessEqual => decide
  | _ => cases joins

/- An expression that is the tree of a chain among some tokens. -/
def Chained (ts : List Token) (e : Expr) : Prop :=
  ∃ chain : Chain, chain.tree = e ∧ chain.tokens <:+: ts

theorem Chained.within {a ts : List Token} {e : Expr} (h : Chained a e) (part : a <:+: ts) :
    Chained ts e := by
  obtain ⟨chain, tree, inside⟩ := h
  exact ⟨chain, tree, inside.trans part⟩

theorem Test.chained (test : Test) : ∀ e ∈ [test.condition.tree], Chained test.tokens e := by
  intro e inside
  rw [List.mem_singleton.mp inside]
  exact ⟨test.condition, rfl, [test.word.val, test.left.val], [test.right.val], by simp [Test.tokens]⟩

theorem Command.chained (command : Command) : ∀ e ∈ command.trees, Chained command.tokens e := by
  obtain ⟨name, _ | ⟨left, _ | ⟨first, more⟩, right⟩⟩ := command
  · nofun
  · nofun
  · intro e inside
    rcases List.mem_cons.mp inside with rfl | later
    · exact ⟨first, rfl, [name.val, left.val], restTokens more ++ [right.val],
        by simp [Command.tokens, Arguments.tokens, Listing.tokens]⟩
    · obtain ⟨next, among, rfl⟩ := List.mem_map.mp later
      obtain ⟨before, after, rfl⟩ := List.append_of_mem among
      exact ⟨next.2, rfl, name.val :: left.val :: (first.tokens ++ restTokens before ++ [next.1.val]),
        restTokens after ++ [right.val],
        by simp [Command.tokens, Arguments.tokens, Listing.tokens, restTokens]⟩

theorem Step.chained (d : Step) : ∀ e ∈ d.tree.expressions, Chained d.tokens e := by
  intro e inside
  cases d with
  | command header content =>
    exact (content.chained e inside).within (List.suffix_append _ _).isInfix
  | ifOnly header test left body right =>
    exact (test.chained e inside).within
      ⟨header.tokens, left.val :: (stepTokens body ++ [right.val]), by simp [Step.tokens]⟩
  | ifElse header test left body right word left' other right' =>
    exact (test.chained e inside).within ⟨header.tokens, left.val :: (stepTokens body ++ right.val ::
      word.val :: left'.val :: (stepTokens other ++ [right'.val])), by simp [Step.tokens]⟩

theorem Source.chained (source : Source) :
    ∀ e ∈ source.tree.expressions, Chained source.tokens e := by
  intro e inside
  rcases List.mem_append.mp inside with value | own
  · obtain ⟨tree, among, rfl⟩ := List.mem_map.mp value
    obtain ⟨d, rfl, part⟩ := source.declarationWritten tree among
    exact ⟨d.value, rfl, List.IsInfix.trans
      ⟨[d.word.val, d.name.val, d.equal.val], [], by simp [Declaration.tokens]⟩ part⟩
  · obtain ⟨found, walked, among⟩ := List.mem_flatMap.mp own
    obtain ⟨d, tree, part⟩ := source.stepWritten found walked
    rw [← tree] at among
    exact (d.chained e among).within part

end Grammar

theorem beforeEndWritten {each : List Token} (written : ∀ t ∈ each, t.Written) (last : Nat) :
    beforeEnd (each ++ [.endAt last]) = each := by
  have goesOn : ∀ t ∈ each, (t.kind != .endOfInput) = true := fun t inside =>
    bne_iff_ne.mpr (written t inside).lexeme.inText
  rw [beforeEnd, List.takeWhile_append_of_pos goesOn]
  exact List.append_nil each

/- What stands in front of the end of input is written. -/
theorem writtenBeforeEnd {source : String} {ts : List Token} (tokenized : tokenize source = .ok ts) :
    ∀ t ∈ beforeEnd ts, t.Written := by
  obtain ⟨each, last, rfl, written⟩ := tokenizeWritten tokenized
  rwa [beforeEndWritten written]

/- Each expression of a program that is read is the tree of a chain of its tokens. -/
theorem parseChained {ts : List Token} {p : Program} (spelled : NumbersSpelled ts)
    (read : parse ts = .ok p) : Assembly.Fits (beforeEnd ts) ∧
      ∀ e ∈ p.expressions, Grammar.Chained (beforeEnd ts) e := by
  obtain ⟨fits, d, yields, rfl⟩ := parseDerived spelled read
  exact ⟨fits, fun e inside => yields ▸ d.chained e inside⟩

end Stepwise
