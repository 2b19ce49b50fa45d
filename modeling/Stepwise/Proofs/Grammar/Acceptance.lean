import Mathlib.Data.List.Permutation
import Stepwise.Proofs.Grammar.Phases
import Stepwise.Proofs.Grammar.Unambiguous

/-! Reading accepts just what the grammar derives. For each nonterminal, the tokens from a phase on
come to a program just when they begin with a derivation, and reading goes on behind it with the
tree of that derivation put in place. -/
namespace Stepwise.Assembly
open Grammar (Leaf Operator)

variable {p : Program} {ts : List Token} {s : State}

/- A number token directly behind the keyword of a step. -/
def StepNumbered (ts : List Token) (t : Token) : Prop :=
  t.kind = .number ∧ ∃ word : Leaf (.keyword .step), [word.val, t] <:+: ts

/- Number tokens are spelled as numbers, and step numbers are plain and not too long. -/
structure Fits (ts : List Token) : Prop where
  spelled : NumbersSpelled ts
  plain : ∀ t, StepNumbered ts t → t.IsPlain
  short : ∀ t, StepNumbered ts t → t.lexeme.toList.length ≤ Numeral.digitLimit

namespace Fits

theorem within {part : List Token} (h : Fits ts) (inside : part <:+: ts) : Fits part := by
  have numbered : ∀ t, StepNumbered part t → StepNumbered ts t :=
    fun t ⟨number, word, found⟩ => ⟨number, word, found.trans inside⟩
  exact ⟨fun t among => h.spelled t (inside.subset among), fun t at_ => h.plain t (numbered t at_),
    fun t at_ => h.short t (numbered t at_)⟩

theorem right {front : List Token} (h : Fits (front ++ ts)) : Fits ts :=
  h.within (List.suffix_append front ts).isInfix

theorem tail {t : Token} (h : Fits (t :: ts)) : Fits ts := h.within (List.suffix_cons t ts).isInfix

theorem next {word : Leaf (.keyword .step)} (h : Fits (word.val :: ts)) : NumberNext ts := by
  intro a first
  obtain ⟨rest, rfl⟩ := List.head?_eq_some_iff.mp first
  have numbered : StepNumbered (word.val :: a.val :: rest) a.val :=
    ⟨a.2, word, (List.prefix_append [word.val, a.val] rest).isInfix⟩
  have spelled := h.spelled a.val (List.mem_cons_of_mem _ List.mem_cons_self) a.2
  exact (State.stepNumberOk spelled).mpr ⟨h.plain _ numbered, h.short _ numbered, rfl⟩

end Fits

section
variable {slot : Slot} {joint : Option Joint} {block : Block} {head : Head} {call : Call} {e : Expr}

theorem acceptsPrimary (fits : Fits ts) : Accepts p ts (s.move (.operand slot joint)) ↔
    ∃ (d : Grammar.Primary) (rest : List Token), ts = d.tokens ++ rest ∧
      Accepts p rest (s.move (.operandRead slot (joined joint d.tree))) := by
  rw [acceptsOperand fits.spelled]
  constructor
  · intro given
    rcases given with ⟨a, rest, rfl, h⟩ | ⟨a, rest, rfl, h⟩ | ⟨a, rest, rfl, h⟩ | ⟨a, rest, rfl, h⟩
    · exact ⟨.text a, rest, rfl, h⟩
    · exact ⟨.number a, rest, rfl, h⟩
    · rcases acceptsNameRead.mp h with ⟨dot, rest', rfl, behind⟩ | behind
      · obtain ⟨name, last, rfl, further⟩ := acceptsNameProperty.mp behind
        exact ⟨.name a (some ⟨dot, name⟩), last, rfl, further⟩
      · exact ⟨.name a none, rest, rfl, behind⟩
    · obtain ⟨number, rest', rfl, behind⟩ := (acceptsReferencedNumber fits.next).mp h
      rcases acceptsReferenceRead.mp behind with ⟨dot, rest'', rfl, further⟩ | further
      · obtain ⟨name, last, rfl, done⟩ := acceptsReferenceProperty.mp further
        exact ⟨.result a number (some ⟨dot, name⟩), last, rfl, done⟩
      · exact ⟨.result a number none, rest', rfl, further⟩
  · intro given
    obtain ⟨d, rest, rfl, h⟩ := given
    cases d with
    | text body => exact .inl ⟨body, rest, rfl, h⟩
    | number digits => exact .inr (.inl ⟨digits, rest, rfl, h⟩)
    | name word part =>
      refine .inr (.inr (.inl ⟨word, _, rfl, acceptsNameRead.mpr ?_⟩))
      cases part with
      | none => exact .inr h
      | some part => exact .inl ⟨part.dot, _, rfl, acceptsNameProperty.mpr ⟨part.name, rest, rfl, h⟩⟩
    | result word digits part =>
      refine .inr (.inr (.inr ⟨word, _, rfl, ?_⟩))
      refine (acceptsReferencedNumber fits.next).mpr ⟨digits, _, rfl, acceptsReferenceRead.mpr ?_⟩
      cases part with
      | none => exact .inr h
      | some part =>
        exact .inl ⟨part.dot, _, rfl, acceptsReferenceProperty.mpr ⟨part.name, rest, rfl, h⟩⟩

theorem linksFound (fits : Fits ts) (h : Accepts p ts (s.move (.operandRead slot e))) :
    ∃ links rest, ts = Grammar.linkTokens links ++ rest ∧
      Accepts p rest (s.fill (Grammar.linked e links) slot) := by
  -- the operator makes the rest shorter; what stands before it becomes the left operand
  induction size : ts.length using Nat.strong_induction_on generalizing ts e with
  | _ n ih =>
    rcases acceptsOperandRead.mp h with ⟨op, rest, rfl, behind⟩ | done
    · obtain ⟨d, rest', rfl, further⟩ := (acceptsPrimary fits.tail).mp behind
      have smaller : rest'.length < n := by
        rw [← size, List.length_cons, List.length_append]
        omega
      obtain ⟨links, last, rfl, filled⟩ := ih rest'.length smaller fits.tail.right further rfl
      refine ⟨(op, d) :: links, last, ?_, filled⟩
      simp only [Grammar.linkTokens, List.flatMap_cons, List.cons_append, List.append_assoc]
    · exact ⟨[], ts, rfl, done⟩

theorem linksTaken {links : List (Operator × Grammar.Primary)} {rest : List Token}
    (fits : Fits (Grammar.linkTokens links ++ rest))
    (h : Accepts p rest (s.fill (Grammar.linked e links) slot)) :
    Accepts p (Grammar.linkTokens links ++ rest) (s.move (.operandRead slot e)) := by
  induction links generalizing e with
  | nil => exact acceptsOperandRead.mpr (.inr h)
  | cons link links ih =>
    obtain ⟨op, d⟩ := link
    simp only [Grammar.linkTokens, List.flatMap_cons, List.cons_append, List.append_assoc] at fits ⊢
    refine acceptsOperandRead.mpr (.inl ⟨op, _, rfl, ?_⟩)
    exact (acceptsPrimary fits.tail).mpr ⟨d, _, rfl, ih fits.tail.right h⟩

theorem acceptsChain (fits : Fits ts) : Accepts p ts (s.move (.operand slot none)) ↔
    ∃ (chain : Grammar.Chain) (rest : List Token), ts = chain.tokens ++ rest ∧
      Accepts p rest (s.fill chain.tree slot) := by
  rw [acceptsPrimary fits]
  constructor
  · intro given
    obtain ⟨d, rest, rfl, h⟩ := given
    obtain ⟨links, last, rfl, filled⟩ := linksFound fits.right h
    exact ⟨⟨d, links⟩, last, by rw [Grammar.Chain.tokens, List.append_assoc], filled⟩
  · intro given
    obtain ⟨⟨d, links⟩, rest, rfl, h⟩ := given
    rw [Grammar.Chain.tokens, List.append_assoc] at fits ⊢
    exact ⟨d, _, rfl, linksTaken fits.right h⟩

theorem restFound {arguments : List Expr} (fits : Fits ts)
    (h : Accepts p ts (s.move (.argumentsEnd block call arguments))) :
    ∃ more, ∃ right : Leaf (.mark .rightParen), ∃ rest,
      ts = Grammar.restTokens more ++ right.val :: rest ∧ Accepts p rest
        (s.move (.steps (block.add (call.step (arguments ++ Grammar.restTrees more))))) := by
  -- each comma makes the rest shorter
  induction size : ts.length using Nat.strong_induction_on generalizing ts arguments with
  | _ n ih =>
    rcases acceptsArgumentsEnd.mp h with ⟨right, rest, rfl, done⟩ | ⟨comma, rest, rfl, behind⟩
    · refine ⟨[], right, rest, rfl, ?_⟩
      rw [Grammar.restTrees, List.map_nil, List.append_nil]
      exact done
    · obtain ⟨chain, rest', rfl, further⟩ := (acceptsChain fits.tail).mp behind
      have smaller : rest'.length < n := by
        rw [← size, List.length_cons, List.length_append]
        omega
      obtain ⟨more, right, last, rfl, done⟩ := ih rest'.length smaller fits.tail.right further rfl
      refine ⟨(comma, chain) :: more, right, last, ?_, ?_⟩
      · simp only [Grammar.restTokens, List.flatMap_cons, List.cons_append, List.append_assoc]
      · rw [List.append_assoc] at done
        exact done

theorem restTaken {arguments : List Expr} {more : List (Leaf (.mark .comma) × Grammar.Chain)}
    {right : Leaf (.mark .rightParen)} {rest : List Token}
    (fits : Fits (Grammar.restTokens more ++ right.val :: rest))
    (h : Accepts p rest
      (s.move (.steps (block.add (call.step (arguments ++ Grammar.restTrees more)))))) :
    Accepts p (Grammar.restTokens more ++ right.val :: rest)
      (s.move (.argumentsEnd block call arguments)) := by
  induction more generalizing arguments with
  | nil =>
    rw [Grammar.restTrees, List.map_nil, List.append_nil] at h
    exact acceptsArgumentsEnd.mpr (.inl ⟨right, rest, rfl, h⟩)
  | cons next more ih =>
    obtain ⟨comma, chain⟩ := next
    simp only [Grammar.restTokens, List.flatMap_cons, List.cons_append, List.append_assoc] at fits ⊢
    refine acceptsArgumentsEnd.mpr (.inr ⟨comma, _, rfl, ?_⟩)
    refine (acceptsChain fits.tail).mpr ⟨chain, _, rfl, ih fits.tail.right ?_⟩
    rw [List.append_assoc]
    exact h

theorem acceptsListing (fits : Fits ts) : Accepts p ts (s.move (.argumentsStart block call)) ↔
    ∃ (listing : Option Grammar.Listing) (right : Leaf (.mark .rightParen)) (rest : List Token),
      ts = listing.elim [] Grammar.Listing.tokens ++ right.val :: rest ∧ Accepts p rest
        (s.move (.steps (block.add (call.step (listing.elim [] Grammar.Listing.trees))))) := by
  rw [acceptsArgumentsStart, acceptsChain fits]
  constructor
  · intro given
    rcases given with ⟨right, rest, rfl, h⟩ | ⟨chain, rest, rfl, h⟩
    · exact ⟨none, right, rest, rfl, h⟩
    · obtain ⟨more, right, last, rfl, done⟩ := restFound fits.right h
      refine ⟨some ⟨chain, more⟩, right, last, ?_, done⟩
      rw [Option.elim_some, Grammar.Listing.tokens, List.append_assoc]
  · intro given
    obtain ⟨listing, right, rest, rfl, h⟩ := given
    cases listing with
    | none => exact .inl ⟨right, rest, rfl, h⟩
    | some listing =>
      rw [Option.elim_some, Grammar.Listing.tokens, List.append_assoc] at fits ⊢
      exact .inr ⟨listing.first, _, rfl, restTaken fits.right h⟩

theorem acceptsContent (fits : Fits ts) : Accepts p ts (s.move (.stepContent block head)) ↔
    (∃ (content : Grammar.Command) (rest : List Token), ts = content.tokens ++ rest ∧
      Accepts p rest (s.move (.steps (block.add (.command head.id content.name.val.lexeme
        content.trees (some head.line) (some content.name.val.line)))))) ∨
    ∃ (test : Grammar.Test) (rest : List Token), ts = test.tokens ++ rest ∧
      Accepts p rest (s.move (.thenStart block head test.word.val.line test.condition.tree)) := by
  rw [acceptsStepContent]
  constructor
  · intro given
    rcases given with ⟨name, rest, rfl, h⟩ | ⟨word, rest, rfl, h⟩
    · left
      rcases acceptsCommandRead.mp h with ⟨left, rest', rfl, behind⟩ | done
      · obtain ⟨listing, right, last, rfl, done⟩ := (acceptsListing fits.tail.tail).mp behind
        refine ⟨⟨name, some ⟨left, listing, right⟩⟩, last, ?_, done⟩
        simp [Grammar.Command.tokens, Grammar.Arguments.tokens]
      · exact ⟨⟨name, none⟩, rest, rfl, done⟩
    · right
      obtain ⟨left, rest', rfl, behind⟩ := acceptsConditionStart.mp h
      obtain ⟨condition, rest'', rfl, further⟩ := (acceptsChain fits.tail.tail).mp behind
      obtain ⟨right, last, rfl, done⟩ := acceptsConditionEnd.mp further
      refine ⟨⟨word, left, condition, right⟩, last, ?_, done⟩
      simp [Grammar.Test.tokens]
  · intro given
    rcases given with ⟨⟨name, arguments⟩, rest, rfl, h⟩ |
      ⟨⟨word, left, condition, right⟩, rest, rfl, h⟩
    · left
      refine ⟨name, _, rfl, acceptsCommandRead.mpr ?_⟩
      cases arguments with
      | none => exact .inr h
      | some arguments =>
        obtain ⟨left, listing, right⟩ := arguments
        simp only [Grammar.Command.tokens, Option.elim_some, Grammar.Arguments.tokens, List.append_eq,
          List.cons_append, List.append_assoc, List.nil_append] at fits ⊢
        exact .inl ⟨left, _, rfl, (acceptsListing fits.tail.tail).mpr ⟨listing, right, rest, rfl, h⟩⟩
    · right
      simp only [Grammar.Test.tokens, List.cons_append, List.append_assoc, List.nil_append] at fits ⊢
      refine ⟨word, _, rfl, acceptsConditionStart.mpr ⟨left, _, rfl, ?_⟩⟩
      refine (acceptsChain fits.tail.tail).mpr ⟨condition, _, rfl, ?_⟩
      exact acceptsConditionEnd.mpr ⟨right, rest, rfl, h⟩

theorem acceptsHeader (fits : Fits ts) : Accepts p ts (s.move (.steps block)) ↔
    (∃ (right : Leaf (.mark .rightBrace)) (rest : List Token), ts = right.val :: rest ∧
      Accepts p rest (s.close block)) ∨
    ∃ (header : Grammar.Header) (rest : List Token), ts = header.tokens ++ rest ∧
      Accepts p rest (s.move (.stepContent block ⟨header.id, header.word.val.line⟩)) := by
  rw [acceptsSteps]
  refine or_congr_right ⟨?_, ?_⟩
  · intro given
    obtain ⟨word, rest, rfl, h⟩ := given
    obtain ⟨number, rest', rfl, behind⟩ := (acceptsStepNumber fits.next).mp h
    obtain ⟨colon, last, rfl, done⟩ := acceptsStepColon.mp behind
    exact ⟨⟨word, number, colon⟩, last, rfl, done⟩
  · intro given
    obtain ⟨⟨word, number, colon⟩, rest, rfl, h⟩ := given
    refine ⟨word, _, rfl, (acceptsStepNumber fits.next).mpr ⟨number, _, rfl, ?_⟩⟩
    exact acceptsStepColon.mpr ⟨colon, rest, rfl, h⟩

end

/- A block with further steps read. -/
def Block.addAll : Block → List Step → Block
  | .workflow name line steps, more => .workflow name line (steps ++ more)
  | .thenPart outer head condition ifLine steps, more =>
      .thenPart outer head condition ifLine (steps ++ more)
  | .elsePart outer head condition ifLine body steps, more =>
      .elsePart outer head condition ifLine body (steps ++ more)

theorem addAllNone (block : Block) : block.addAll [] = block := by
  cases block <;> simp only [Block.addAll, List.append_nil]

theorem addAllCons (block : Block) (step : Step) (rest : List Step) :
    block.addAll (step :: rest) = (block.add step).addAll rest := by
  cases block <;> simp only [Block.addAll, Block.add, List.append_assoc, List.cons_append,
    List.nil_append]

theorem blockFound {block : Block} (fits : Fits ts) (h : Accepts p ts (s.move (.steps block))) :
    ∃ steps, ∃ right : Leaf (.mark .rightBrace), ∃ rest,
      ts = Grammar.stepTokens steps ++ right.val :: rest ∧
      Accepts p rest (s.close (block.addAll (Grammar.stepTrees steps))) := by
  -- both the blocks within a step and what stands behind it are shorter than the whole
  induction size : ts.length using Nat.strong_induction_on generalizing ts block with
  | _ n ih =>
    rcases (acceptsHeader fits).mp h with ⟨right, rest, rfl, done⟩ | ⟨header, rest, rfl, behind⟩
    · refine ⟨[], right, rest, rfl, ?_⟩
      rw [Grammar.stepTrees, addAllNone]
      exact done
    · rcases (acceptsContent fits.right).mp behind with ⟨content, rest', rfl, further⟩ |
        ⟨test, rest', rfl, further⟩
      · have smaller : rest'.length < n := by
          rw [← size, List.length_append, List.length_append, Grammar.Header.tokens]
          simp only [List.length_cons]
          omega
        obtain ⟨steps, right, last, rfl, done⟩ := ih _ smaller fits.right.right further rfl
        refine ⟨.command header content :: steps, right, last, ?_, ?_⟩
        · simp only [Grammar.stepTokens, Grammar.Step.tokens, List.append_assoc]
        · rw [Grammar.stepTrees, addAllCons]
          exact done
      · obtain ⟨left, inner, rfl, opened⟩ := acceptsThenStart.mp further
        have first := fits.right.right.tail
        simp only [List.length_append, List.length_cons] at size
        obtain ⟨body, right, behind, rfl, closed⟩ := ih _ (by omega) first opened rfl
        simp only [List.length_append, List.length_cons] at size
        rcases acceptsThenRead.mp closed with ⟨word, rest, rfl, other⟩ | done
        · obtain ⟨left', inner', rfl, opened'⟩ := acceptsElseStart.mp other
          have second := first.right.tail.tail.tail
          simp only [List.length_cons] at size
          obtain ⟨others, right', behind', rfl, closed'⟩ := ih _ (by omega) second opened' rfl
          simp only [List.length_append, List.length_cons] at size
          obtain ⟨steps, last, rest, rfl, done⟩ := ih _ (by omega) second.right.tail closed' rfl
          refine ⟨.ifElse header test left body right word left' others right' :: steps, last, rest,
            ?_, ?_⟩
          · simp [Grammar.stepTokens, Grammar.Step.tokens]
          · rw [Grammar.stepTrees, addAllCons]
            exact done
        · obtain ⟨steps, last, rest, rfl, ended⟩ := ih _ (by omega) first.right.tail done rfl
          refine ⟨.ifOnly header test left body right :: steps, last, rest, ?_, ?_⟩
          · simp [Grammar.stepTokens, Grammar.Step.tokens]
          · rw [Grammar.stepTrees, addAllCons]
            exact ended

mutual

theorem stepTaken : (d : Grammar.Step) → {block : Block} → {rest : List Token} →
    Fits (d.tokens ++ rest) → Accepts p rest (s.move (.steps (block.add d.tree))) →
    Accepts p (d.tokens ++ rest) (s.move (.steps block))
  | .command header content, block, rest, fits, h => by
      simp only [Grammar.Step.tokens, List.append_assoc] at fits ⊢
      refine (acceptsHeader fits).mpr (.inr ⟨header, _, rfl, ?_⟩)
      exact (acceptsContent fits.right).mpr (.inl ⟨content, rest, rfl, h⟩)
  | .ifOnly header test left body right, block, rest, fits, h => by
      simp only [Grammar.Step.tokens, List.append_assoc, List.cons_append, List.nil_append] at fits ⊢
      refine (acceptsHeader fits).mpr (.inr ⟨header, _, rfl, ?_⟩)
      refine (acceptsContent fits.right).mpr (.inr ⟨test, _, rfl, ?_⟩)
      refine acceptsThenStart.mpr ⟨left, _, rfl, stepsTaken body fits.right.right.tail ?_⟩
      exact acceptsThenRead.mpr (.inr h)
  | .ifElse header test left body right word left' other right', block, rest, fits, h => by
      simp only [Grammar.Step.tokens, List.append_assoc, List.cons_append, List.nil_append] at fits ⊢
      have inner := fits.right.right.tail
      refine (acceptsHeader fits).mpr (.inr ⟨header, _, rfl, ?_⟩)
      refine (acceptsContent fits.right).mpr (.inr ⟨test, _, rfl, ?_⟩)
      refine acceptsThenStart.mpr ⟨left, _, rfl, stepsTaken body inner ?_⟩
      refine acceptsThenRead.mpr (.inl ⟨word, _, rfl, acceptsElseStart.mpr ⟨left', _, rfl, ?_⟩⟩)
      exact stepsTaken other inner.right.tail.tail.tail h

theorem stepsTaken : (ds : List Grammar.Step) → {block : Block} →
    {right : Leaf (.mark .rightBrace)} → {rest : List Token} →
    Fits (Grammar.stepTokens ds ++ right.val :: rest) →
    Accepts p rest (s.close (block.addAll (Grammar.stepTrees ds))) →
    Accepts p (Grammar.stepTokens ds ++ right.val :: rest) (s.move (.steps block))
  | [], block, right, rest, fits, h => by
      rw [Grammar.stepTrees, addAllNone] at h
      exact (acceptsHeader fits).mpr (.inl ⟨right, rest, rfl, h⟩)
  | d :: ds, block, right, rest, fits, h => by
      rw [Grammar.stepTrees, addAllCons] at h
      rw [Grammar.stepTokens, List.append_assoc] at fits ⊢
      exact stepTaken d fits (stepsTaken ds fits.right h)

end

/- One declaration or workflow, and what has been read with it. -/
def State.put (s : State) (item : Grammar.Item) : State :=
  ⟨s.declarations ++ item.declaration?.toList, s.workflows ++ item.workflow?.toList, .top⟩

theorem putDeclaration {d : Grammar.Declaration} {w : Keyword} (kind : d.word.val.kind = .keyword w) :
    s.put (.declaration d) = s.fill d.value.tree (.value w d.name.val.lexeme d.word.val.line) := by
  have spelling : Grammar.DeclarationWord.spelling d.word = w.spelling := by
    unfold Grammar.DeclarationWord.spelling
    rw [kind]
  simp [State.put, State.fill, Grammar.Item.declaration?, Grammar.Item.workflow?,
    Grammar.Declaration.tree, spelling]

theorem putWorkflow {w : Grammar.Workflow} : s.put (.workflow w) =
    s.close (.workflow (Grammar.textBody w.name) w.word.val.line (Grammar.stepTrees w.steps)) := by
  simp [State.put, State.close, Grammar.Item.declaration?, Grammar.Item.workflow?,
    Grammar.Workflow.tree]

theorem acceptsItem (fits : Fits ts) : Accepts p ts (s.move .top) ↔
    (ts = [] ∧ p = ⟨s.declarations, s.workflows, some 1⟩) ∨
    ∃ (item : Grammar.Item) (rest : List Token), ts = item.tokens ++ rest ∧
      Accepts p rest (s.put item) := by
  rw [acceptsTop]
  refine or_congr_right ⟨?_, ?_⟩
  · intro given
    rcases given with ⟨word, w, rest, rfl, kind, h⟩ | ⟨word, rest, rfl, h⟩
    · obtain ⟨name, rest', rfl, first⟩ := acceptsVariableName.mp h
      obtain ⟨equal, rest'', rfl, second⟩ := acceptsVariableEqual.mp first
      obtain ⟨value, last, rfl, done⟩ := (acceptsChain fits.tail.tail.tail).mp second
      refine ⟨.declaration ⟨word, name, equal, value⟩, last, rfl, ?_⟩
      rw [putDeclaration kind]
      exact done
    · obtain ⟨name, rest', rfl, first⟩ := acceptsWorkflowName.mp h
      obtain ⟨left, rest'', rfl, second⟩ := acceptsWorkflowStart.mp first
      obtain ⟨steps, right, last, rfl, done⟩ := blockFound fits.tail.tail.tail second
      refine ⟨.workflow ⟨word, name, left, steps, right⟩, last, ?_, ?_⟩
      · simp [Grammar.Item.tokens, Grammar.Workflow.tokens]
      · rw [putWorkflow]
        exact done
  · intro given
    obtain ⟨item, rest, rfl, h⟩ := given
    cases item with
    | declaration d =>
      obtain ⟨w, kind, _⟩ := d.word.2
      rw [putDeclaration kind] at h
      refine .inl ⟨d.word, w, _, rfl, kind, acceptsVariableName.mpr ⟨d.name, _, rfl, ?_⟩⟩
      refine acceptsVariableEqual.mpr ⟨d.equal, _, rfl, ?_⟩
      exact (acceptsChain fits.tail.tail.tail).mpr ⟨d.value, rest, rfl, h⟩
    | workflow w =>
      rw [putWorkflow] at h
      simp only [Grammar.Item.tokens, Grammar.Workflow.tokens, List.cons_append, List.append_assoc,
        List.nil_append] at fits ⊢
      refine .inr ⟨w.word, _, rfl, acceptsWorkflowName.mpr ⟨w.name, _, rfl, ?_⟩⟩
      refine acceptsWorkflowStart.mpr ⟨w.left, _, rfl, ?_⟩
      exact stepsTaken w.steps fits.tail.tail.tail h

/- The program that a derivation adds to what has been read. -/
def State.putAll (s : State) (source : Grammar.Source) : Program :=
  ⟨s.declarations ++ source.tree.declarations, s.workflows ++ source.tree.workflows, some 1⟩

theorem putAllNone : s.putAll [] = ⟨s.declarations, s.workflows, some 1⟩ := by
  simp [State.putAll, Grammar.Source.tree]

theorem putAllCons (item : Grammar.Item) (source : Grammar.Source) :
    s.putAll (item :: source) = (s.put item).putAll source := by
  cases item <;> simp [State.putAll, State.put, Grammar.Source.tree, List.filterMap_cons,
    Grammar.Item.declaration?, Grammar.Item.workflow?]

theorem sourceFound (fits : Fits ts) (h : Accepts p ts (s.move .top)) :
    ∃ source : Grammar.Source, source.tokens = ts ∧ p = s.putAll source := by
  induction size : ts.length using Nat.strong_induction_on generalizing ts s with
  | _ n ih =>
    rcases (acceptsItem fits).mp h with ⟨rfl, rfl⟩ | ⟨item, rest, rfl, behind⟩
    · exact ⟨[], rfl, putAllNone.symm⟩
    · obtain ⟨t, behindFirst, shape, _⟩ := item.start
      rw [shape, List.cons_append, List.length_cons, List.length_append] at size
      have onward : Accepts p rest ((s.put item).move .top) := behind
      obtain ⟨source, rfl, same⟩ := ih rest.length (by omega) fits.right onward rfl
      exact ⟨item :: source, rfl, same.trans (putAllCons item source).symm⟩

theorem sourceTaken {source : Grammar.Source} (fits : Fits source.tokens) :
    Accepts (s.putAll source) source.tokens (s.move .top) := by
  induction source generalizing s with
  | nil => exact (acceptsItem fits).mpr (.inl ⟨rfl, putAllNone⟩)
  | cons item source ih =>
    have parts : Fits (item.tokens ++ Grammar.Source.tokens source) := fits
    rw [putAllCons]
    exact (acceptsItem fits).mpr (.inr ⟨item, _, rfl, ih parts.right⟩)

/- A state that takes a number token only if it counts as a step number. -/
def Counts (s : State) : Prop :=
  ∀ t next, t.kind = .number → s.feed t = .ok next → ∃ id, State.stepNumber t = .ok id

theorem numberCounts {next : Int → State} {cause : ParseCause} (closed : s.phase.isOpen = false)
    (shifts : ∀ t, s.shift t = if t.kind = .number then (State.stepNumber t).map next
      else .error cause) : Counts s := by
  intro t after number fed
  rw [State.feedClosed closed, shifts, if_pos number] at fed
  cases read : State.stepNumber t with
  | ok id => exact ⟨id, rfl⟩
  | error cause =>
    rw [read] at fed
    cases fed

/- The keyword of a step is taken only where a step number has to follow. -/
theorem shiftStep {word : Leaf (.keyword .step)} {next : State} (h : s.shift word.val = .ok next) :
    Counts next := by
  obtain ⟨declarations, workflows, phase⟩ := s
  cases phase <;> simp [State.shift, State.operand, State.move, word.2, Keyword.declares,
    Keyword.namesCommand] at h
  all_goals
    subst h
    exact numberCounts rfl fun t => rfl

/- A token that is the keyword of a step continues nothing. -/
theorem feedStep {word : Leaf (.keyword .step)} {next : State} (h : s.feed word.val = .ok next) :
    Counts next := by
  have stays : s.extend? word.val = none := by
    unfold State.extend?
    rw [word.2]
    cases s.phase <;> rfl
  rw [State.feedSettled stays, State.feedClosed s.settleIsClosed] at h
  exact shiftStep h

theorem acceptsBehind {front : List Token} (h : Accepts p (front ++ ts) s) :
    ∃ next, Accepts p ts next := by
  induction front generalizing s with
  | nil => exact ⟨s, h⟩
  | cons t front ih =>
    obtain ⟨next, _, accepted⟩ := h
    exact ih accepted

/- What is accepted has step numbers that count as such. -/
theorem acceptedFits (spelled : NumbersSpelled ts) (h : Accepts p ts s) : Fits ts := by
  have counted : ∀ t, StepNumbered ts t →
      t.IsPlain ∧ t.lexeme.toList.length ≤ Numeral.digitLimit := by
    intro t numbered
    obtain ⟨number, word, front, rest, rfl⟩ := numbered
    rw [List.append_assoc] at h
    obtain ⟨_, between, fed, _, fedNumber, _⟩ := acceptsBehind h
    obtain ⟨id, read⟩ := feedStep fed t _ number fedNumber
    have inside : t ∈ front ++ [word.val, t] ++ rest := by simp
    have value := (State.stepNumberOk (spelled t inside number)).mp read
    exact ⟨value.1, value.2.1⟩
  exact ⟨spelled, fun t at_ => (counted t at_).1, fun t at_ => (counted t at_).2⟩

end Stepwise.Assembly

namespace Stepwise
open Assembly

/- The tokens in front of the end of input. -/
def beforeEnd (ts : List Token) : List Token := ts.takeWhile (·.kind != .endOfInput)

theorem NumbersSpelled.front {ts : List Token} (spelled : NumbersSpelled ts) :
    NumbersSpelled (beforeEnd ts) :=
  fun t inside => spelled t ((List.takeWhile_prefix _).subset inside)

theorem beforeEndSpelled {source : String} {ts : List Token} (tokenized : tokenize source = .ok ts) :
    NumbersSpelled (beforeEnd ts) :=
  (tokenizeSpelled tokenized).front

theorem parseAccepts {ts : List Token} {p : Program} :
    parse ts = .ok p ↔ Accepts p (beforeEnd ts) (start.move .top) := runAccepts

/- What is read is derived from the grammar. -/
theorem parseDerived {ts : List Token} {p : Program} (spelled : NumbersSpelled ts)
    (read : parse ts = .ok p) :
    Fits (beforeEnd ts) ∧ ∃ d : Grammar.Source, d.tokens = beforeEnd ts ∧ d.tree = p := by
  have accepted := parseAccepts.mp read
  have fits := acceptedFits spelled.front accepted
  obtain ⟨d, yields, tree⟩ := sourceFound fits accepted
  exact ⟨fits, d, yields, tree.symm⟩

theorem derivedParse {ts : List Token} {d : Grammar.Source} (fits : Fits d.tokens)
    (yields : d.tokens = beforeEnd ts) : parse ts = .ok d.tree := by
  refine parseAccepts.mpr ?_
  rw [← yields]
  exact sourceTaken (s := start) fits

/- The tokens of a text whose step numbers are not too long are read just when they are derived from
the grammar and their step numbers are plain. The derivation is then the only one, and the program
is its tree. -/
theorem parseDerives {source : String} {ts : List Token} (tokenized : tokenize source = .ok ts)
    (short : ∀ t, StepNumbered (beforeEnd ts) t →
      t.lexeme.toList.countP Text.isDigit ≤ Numeral.digitLimit) :
    ((∃ p, parse ts = .ok p) ↔ (∃ d : Grammar.Source, d.tokens = beforeEnd ts) ∧
      ∀ t, StepNumbered (beforeEnd ts) t → t.IsPlain) ∧
    ∀ p, parse ts = .ok p → ∃ d : Grammar.Source, d.tokens = beforeEnd ts ∧ d.tree = p ∧
      ∀ other : Grammar.Source, other.tokens = beforeEnd ts → other = d := by
  have spelled := beforeEndSpelled tokenized
  have found : ∀ p, parse ts = .ok p → Fits (beforeEnd ts) ∧
      ∃ d : Grammar.Source, d.tokens = beforeEnd ts ∧ p = d.tree := by
    intro p h
    have accepted := parseAccepts.mp h
    have fits := acceptedFits spelled accepted
    exact ⟨fits, sourceFound fits accepted⟩
  refine ⟨⟨?_, ?_⟩, ?_⟩
  · intro given
    obtain ⟨p, h⟩ := given
    obtain ⟨fits, d, yields, _⟩ := found p h
    exact ⟨⟨d, yields⟩, fits.plain⟩
  · intro given
    obtain ⟨⟨d, yields⟩, plain⟩ := given
    have fits : Fits (beforeEnd ts) := by
      refine ⟨spelled, plain, fun t at_ => ?_⟩
      have digits : t.lexeme.toList.countP Text.isDigit = t.lexeme.toList.length :=
        List.countP_eq_length.mpr (plain t at_)
      rw [← digits]
      exact short t at_
    rw [← yields] at fits
    refine ⟨d.tree, parseAccepts.mpr ?_⟩
    rw [← yields]
    exact sourceTaken (s := start) fits
  · intro p h
    obtain ⟨_, d, yields, tree⟩ := found p h
    exact ⟨d, yields, tree.symm, fun other same => Grammar.Source.unique (same.trans yields.symm)⟩

theorem smallTextDerives :
    ∃ ts p, tokenize "workflow \"w\" \x7b step 2: log(step 2.a) \x7d" = .ok ts ∧ parse ts = .ok p ∧
      ∃ d : Grammar.Source, d.tokens = beforeEnd ts ∧ d.tree = p ∧
        ∀ other : Grammar.Source, other.tokens = beforeEnd ts → other = d := by
  let ts : List Token := [⟨.keyword .workflow, "workflow", none, 1⟩, ⟨.string, "\"w\"", some "w", 1⟩,
    ⟨.mark .leftBrace, "\x7b", none, 1⟩, ⟨.keyword .step, "step", none, 1⟩,
    ⟨.number, "2", some "2", 1⟩, ⟨.mark .colon, ":", none, 1⟩, ⟨.keyword .log, "log", none, 1⟩,
    ⟨.mark .leftParen, "(", none, 1⟩, ⟨.keyword .step, "step", none, 1⟩,
    ⟨.number, "2", some "2", 1⟩, ⟨.mark .dot, ".", none, 1⟩, ⟨.identifier, "a", none, 1⟩,
    ⟨.mark .rightParen, ")", none, 1⟩, ⟨.mark .rightBrace, "\x7d", none, 1⟩, .endAt 1]
  have tokenized : tokenize "workflow \"w\" \x7b step 2: log(step 2.a) \x7d" = .ok ts := by cbv
  have short : ∀ t ∈ beforeEnd ts, t.lexeme.toList.countP Text.isDigit ≤ Numeral.digitLimit := by
    decide
  have derives := parseDerives tokenized fun t numbered => by
    obtain ⟨_, word, inside⟩ := numbered
    exact short t (inside.subset (by simp))
  have read : ∃ p, parse ts = .ok p := ⟨_, rfl⟩
  obtain ⟨p, value⟩ := read
  exact ⟨ts, p, tokenized, value, derives.2 p value⟩

end Stepwise
