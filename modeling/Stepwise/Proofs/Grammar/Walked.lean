import Stepwise.Program.Outline
import Stepwise.Proofs.Grammar.Supplied

/-! The steps and references of a program beside the text they are read from. In the text a step begins
with `step`, a number and a colon, and a reference is `step` and a number with no colon behind it. A walk
of the program meets all of them, each once and in the order of the text. -/
namespace Stepwise

/- A `step` with a number behind it, as it stands in a text: whether a colon comes next, so that it opens
a step, and whether it is inside the body of a workflow. -/
structure StepMark where
  id : Int
  line : Option Nat
  opens : Bool
  inside : Bool
  deriving DecidableEq, Repr

def StepMark.place (m : StepMark) : Int × Option Nat := (m.id, m.line)

/- How many braces are open behind a token; only bodies of workflows, and blocks within them, are written
in braces. -/
def openBehind (depth : Nat) (t : Token) : Nat :=
  match t.kind with
  | .mark .leftBrace => depth + 1
  | .mark .rightBrace => depth - 1
  | _ => depth

def beginsWithColon (ts : List Token) : Bool := ts.head?.any (·.kind == .mark .colon)

def stepMarkAt? (depth : Nat) : List Token → Option StepMark
  | word :: number :: rest =>
      if word.kind = .keyword .step ∧ number.kind = .number then
        some ⟨(Decimal.ofDigitChars number.lexeme.toList : Nat), some word.line, beginsWithColon rest,
          0 < depth⟩
      else none
  | _ => none

/- All of them in some tokens, in front of which so many braces are open. -/
def stepMarks (depth : Nat) : List Token → List StepMark
  | [] => []
  | t :: rest => (stepMarkAt? depth (t :: rest)).toList ++ stepMarks (openBehind depth t) rest

/-! What a walk meets. -/

def Expr.marks (inside : Bool) (e : Expr) : List StepMark :=
  e.references.map fun r => ⟨r.step, r.line, false, inside⟩

/- A step and the references of its own expressions. -/
def Step.marks (s : Step) : List StepMark :=
  ⟨s.id, s.line, true, true⟩ :: s.expressions.flatMap (Expr.marks true)

def Workflow.marks (w : Workflow) : List StepMark := (Step.walkAll w.steps).flatMap Step.marks

theorem Expr.marksReferring {inside : Bool} {e : Expr} :
    ∀ m ∈ e.marks inside, m.opens = false ∧ m.inside = inside := by
  intro m own
  obtain ⟨r, _, rfl⟩ := List.mem_map.mp own
  exact ⟨rfl, rfl⟩

theorem Workflow.marksInside {w : Workflow} : ∀ m ∈ w.marks, m.inside = true := by
  intro m own
  obtain ⟨s, _, own⟩ := List.mem_flatMap.mp own
  rcases List.mem_cons.mp own with rfl | refers
  · rfl
  · obtain ⟨e, _, own⟩ := List.mem_flatMap.mp refers
    exact (Expr.marksReferring m own).2

theorem Program.walkMarks (p : Program) :
    p.walk.flatMap (fun found => found.2.marks) = p.workflows.flatMap Workflow.marks := by
  unfold walk
  rw [List.flatMap_assoc]
  exact List.flatMap_congr fun w _ => List.flatMap_map ..

/-! The marks of a text, part by part. -/

/- A part of a text has these marks, whatever is written behind it other than a colon. -/
structure Marked (depth : Nat) (part : List Token) (marks : List StepMark) : Prop where
  begins : beginsWithColon part = false
  read : ∀ rest, beginsWithColon rest = false →
    stepMarks depth (part ++ rest) = marks ++ stepMarks depth rest

/- Tokens that take no part in a mark. -/
def TokenKind.isPlain : TokenKind → Bool
  | .keyword .step | .mark .colon | .mark .leftBrace | .mark .rightBrace => false
  | _ => true

section
variable {depth : Nat} {t : Token} {a b rest : List Token} {ms ns : List StepMark}

theorem markNotStep (other : t.kind ≠ .keyword .step) : stepMarkAt? depth (t :: rest) = none := by
  cases rest with
  | nil => rfl
  | cons number rest => exact if_neg fun both => other both.1

theorem stepMarksPlain (plain : t.kind.isPlain = true) :
    stepMarks depth (t :: rest) = stepMarks depth rest := by
  have other : t.kind ≠ .keyword .step := by
    rintro h
    rw [h] at plain
    cases plain
  have depthKept : openBehind depth t = depth := by
    unfold openBehind
    split <;> simp_all [TokenKind.isPlain]
  rw [stepMarks, markNotStep other, depthKept]
  rfl

theorem colonAppend (first : beginsWithColon a = false) (second : beginsWithColon b = false) :
    beginsWithColon (a ++ b) = false := by
  cases a with
  | nil => exact second
  | cons t rest => exact first

namespace Marked

theorem nil : Marked depth [] [] := ⟨rfl, fun _ _ => rfl⟩

theorem append (first : Marked depth a ms) (second : Marked depth b ns) :
    Marked depth (a ++ b) (ms ++ ns) := by
  refine ⟨colonAppend first.begins second.begins, fun rest bare => ?_⟩
  rw [List.append_assoc, first.read _ (colonAppend second.begins bare), second.read rest bare,
    List.append_assoc]

theorem plain (h : t.kind.isPlain = true) : Marked depth [t] [] := by
  refine ⟨?begins, fun rest _ => stepMarksPlain h⟩
  have noColon : t.kind ≠ .mark .colon := by
    rintro same
    rw [same] at h
    cases h
  simpa [beginsWithColon] using noColon

theorem cons (h : t.kind.isPlain = true) (behind : Marked depth a ms) : Marked depth (t :: a) ms :=
  (plain h).append behind

theorem snoc (before : Marked depth a ms) (h : t.kind.isPlain = true) : Marked depth (a ++ [t]) ms := by
  have both : Marked depth (a ++ [t]) (ms ++ []) := before.append (plain h)
  rwa [List.append_nil] at both

/- What stands in braces is one level deeper. -/
theorem braced {left right : Token} (opens : left.kind = .mark .leftBrace)
    (closes : right.kind = .mark .rightBrace) (body : Marked (depth + 1) a ms) :
    Marked depth (left :: (a ++ [right])) ms := by
  have atLeft : left.kind ≠ .keyword .step := by simp [opens]
  have atRight : right.kind ≠ .keyword .step := by simp [closes]
  refine ⟨by simp [beginsWithColon, opens], fun rest _ => ?_⟩
  have inner : stepMarks (depth + 1) (a ++ right :: rest) = ms ++ stepMarks (depth + 1) (right :: rest) :=
    body.read _ (by simp [beginsWithColon, closes])
  have behind : stepMarks (depth + 1) (right :: rest) = stepMarks depth rest := by
    simp [stepMarks, markNotStep atRight, openBehind, closes]
  have front : stepMarks depth (left :: (a ++ right :: rest)) = stepMarks (depth + 1) (a ++ right :: rest) := by
    simp [stepMarks, markNotStep atLeft, openBehind, opens]
  rw [List.cons_append, List.append_assoc, List.singleton_append, front, inner, behind]

end Marked

end

namespace Grammar

variable {depth : Nat}

theorem leafPlain {kind : TokenKind} (leaf : Leaf kind) (plain : kind.isPlain = true) :
    leaf.val.kind.isPlain = true := by
  rwa [leaf.2]

theorem markRead (word : Leaf (.keyword .step)) (digits : Leaf .number) (rest : List Token) :
    stepMarks depth (word.val :: digits.val :: rest) =
      ⟨stepId digits, some word.val.line, beginsWithColon rest, 0 < depth⟩ :: stepMarks depth rest := by
  have kept : openBehind depth word.val = depth := by simp [openBehind, word.2]
  have found : stepMarkAt? depth (word.val :: digits.val :: rest) =
      some ⟨stepId digits, some word.val.line, beginsWithColon rest, 0 < depth⟩ :=
    if_pos ⟨word.2, digits.2⟩
  rw [stepMarks, found, kept, stepMarksPlain (leafPlain digits rfl)]
  rfl

theorem partMarked (part : Option Part) : Marked depth (partTokens part) [] := by
  cases part with
  | none => exact .nil
  | some part => exact .cons (leafPlain part.dot rfl) (.plain (leafPlain part.name rfl))

theorem Primary.marked (primary : Primary) :
    Marked depth primary.tokens (primary.tree.marks (0 < depth)) := by
  cases primary with
  | text body => exact .plain (leafPlain body rfl)
  | number digits => exact .plain (leafPlain digits rfl)
  | name word part =>
    have plain := leafPlain word rfl
    cases part with
    | none => exact .plain plain
    | some part => exact .cons plain (partMarked (some part))
  | result word digits part =>
    have pair : Marked depth [word.val, digits.val]
        [⟨stepId digits, some word.val.line, false, 0 < depth⟩] :=
      ⟨by simp [beginsWithColon, word.2], fun rest bare => by
        rw [List.cons_append, List.singleton_append, markRead, bare]
        rfl⟩
    exact pair.append (partMarked part)

theorem operatorPlain (op : Operator) : op.val.kind.isPlain = true := by
  obtain ⟨m, kind, joins⟩ := op.2
  rw [kind]
  cases m <;> first | rfl | cases joins

theorem linkedReferences (left : Expr) (links : List (Operator × Primary)) :
    (linked left links).references = left.references ++ links.flatMap (·.2.tree.references) := by
  induction links generalizing left with
  | nil => exact (List.append_nil _).symm
  | cons link rest ih => rw [linkedNext, ih, List.flatMap_cons, Expr.references, List.append_assoc]

theorem linksMarked (links : List (Operator × Primary)) :
    Marked depth (linkTokens links) (links.flatMap fun link => link.2.tree.marks (0 < depth)) := by
  induction links with
  | nil => exact .nil
  | cons link rest ih => exact (Marked.cons (operatorPlain link.1) link.2.marked).append ih

theorem Chain.marked (chain : Chain) : Marked depth chain.tokens (chain.tree.marks (0 < depth)) := by
  have marks : chain.tree.marks (0 < depth) = chain.first.tree.marks (0 < depth) ++
      chain.more.flatMap fun link => link.2.tree.marks (0 < depth) := by
    unfold Expr.marks
    rw [Chain.tree, linkedReferences, List.map_append, List.map_flatMap]
  rw [marks]
  exact chain.first.marked.append (linksMarked chain.more)

theorem restMarked (rest : List (Leaf (.mark .comma) × Chain)) :
    Marked depth (restTokens rest) ((restTrees rest).flatMap (Expr.marks (0 < depth))) := by
  induction rest with
  | nil => exact .nil
  | cons next rest ih => exact (Marked.cons (leafPlain next.1 rfl) next.2.marked).append ih

theorem Arguments.marked (arguments : Arguments) :
    Marked depth arguments.tokens (arguments.trees.flatMap (Expr.marks (0 < depth))) := by
  obtain ⟨left, listing, right⟩ := arguments
  refine .cons (leafPlain left rfl) (.snoc ?listed (leafPlain right rfl))
  cases listing with
  | none => exact .nil
  | some listing => exact listing.first.marked.append (restMarked listing.more)

theorem Command.marked (command : Command) :
    Marked depth command.tokens (command.trees.flatMap (Expr.marks (0 < depth))) := by
  obtain ⟨name, arguments⟩ := command
  have plain : name.val.kind.isPlain = true := by
    rcases name.2 with kind | ⟨w, kind, names⟩
    · rw [kind]
      rfl
    · rw [kind]
      cases w <;> first | rfl | cases names
  refine .cons plain ?_
  cases arguments with
  | none => exact .nil
  | some arguments => exact arguments.marked

theorem Header.marked (header : Header) :
    Marked depth header.tokens [⟨header.id, header.line, true, 0 < depth⟩] := by
  refine ⟨by simp [beginsWithColon, Header.tokens, header.word.2], fun rest _ => ?_⟩
  have colon : beginsWithColon (header.colon.val :: rest) = true := by
    simp [beginsWithColon, header.colon.2]
  have passed : stepMarks depth (header.colon.val :: rest) = stepMarks depth rest := by
    have other : header.colon.val.kind ≠ .keyword .step := by simp [header.colon.2]
    rw [stepMarks, markNotStep other]
    simp [openBehind, header.colon.2]
  change stepMarks depth (header.word.val :: header.number.val :: header.colon.val :: rest) = _
  rw [markRead, colon, passed]
  rfl

theorem Test.marked (test : Test) :
    Marked depth test.tokens ([test.condition.tree].flatMap (Expr.marks (0 < depth))) := by
  obtain ⟨word, left, condition, right⟩ := test
  rw [List.flatMap_singleton]
  exact .cons (leafPlain word rfl)
    (.cons (leafPlain left rfl) (condition.marked.snoc (leafPlain right rfl)))

mutual

/- The marks of a step and of all that is within it, in the order of a walk. -/
theorem Step.marked (depth : Nat) : (step : Step) →
    Marked (depth + 1) step.tokens (step.tree.walk.flatMap Stepwise.Step.marks)
  | .command header content => by
      have own : Marked (depth + 1) (header.tokens ++ content.tokens) _ :=
        header.marked.append content.marked
      exact (List.flatMap_singleton Stepwise.Step.marks _).symm ▸ own
  | .ifOnly header test left body right => by
      have own : Marked (depth + 1) (header.tokens ++ test.tokens) _ := header.marked.append test.marked
      exact own.append (.braced left.2 right.2 (stepsMarked (depth + 1) body))
  | .ifElse header test left body right word left' other right' => by
      have own : Marked (depth + 1) (header.tokens ++ test.tokens) _ := header.marked.append test.marked
      have thenPart := Marked.braced left.2 right.2 (stepsMarked (depth + 1) body)
      have elsePart := Marked.cons (leafPlain word rfl)
        (.braced left'.2 right'.2 (stepsMarked (depth + 1) other))
      have whole := own.append (thenPart.append elsePart)
      simp only [List.cons_append, List.append_assoc, List.nil_append] at whole
      rw [Step.tree, Stepwise.Step.walk, List.flatMap_cons, List.flatMap_append]
      simp only [Step.tokens, List.append_assoc]
      exact whole

theorem stepsMarked (depth : Nat) : (steps : List Step) → Marked (depth + 1) (stepTokens steps)
    ((Stepwise.Step.walkAll (stepTrees steps)).flatMap Stepwise.Step.marks)
  | [] => .nil
  | step :: rest => by
      rw [stepTrees, Stepwise.Step.walkAll, List.flatMap_append]
      exact (step.marked depth).append (stepsMarked depth rest)

end

def Item.marks : Item → List StepMark
  | .declaration d => d.tree.value.marks false
  | .workflow w => w.tree.marks

theorem Declaration.marked (d : Declaration) : Marked 0 d.tokens (d.tree.value.marks false) := by
  obtain ⟨word, name, equal, value⟩ := d
  have plain : word.val.kind.isPlain = true := by
    obtain ⟨w, kind, declares⟩ := word.2
    rw [kind]
    cases w <;> first | rfl | cases declares
  exact .cons plain (.cons (leafPlain name rfl) (.cons (leafPlain equal rfl) value.marked))

theorem Workflow.marked (w : Workflow) : Marked 0 w.tokens w.tree.marks :=
  .cons (leafPlain w.word rfl) (.cons (leafPlain w.name rfl)
    (.braced w.left.2 w.right.2 (stepsMarked 0 w.steps)))

theorem Source.marked (source : Source) : Marked 0 source.tokens (source.flatMap Item.marks) := by
  induction source with
  | nil => exact .nil
  | cons item rest ih =>
    cases item with
    | declaration d => exact d.marked.append ih
    | workflow w => exact w.marked.append ih

/- The marks in the bodies of workflows are those of the steps, and the others those of the values that
are declared. -/
theorem Source.marksApart (source : Source) :
    (source.flatMap Item.marks).filter StepMark.inside =
        source.tree.workflows.flatMap Workflow.marks ∧
      (source.flatMap Item.marks).filter (fun m => !m.inside) =
        source.tree.declarations.flatMap fun d => d.value.marks false := by
  induction source with
  | nil => exact ⟨rfl, rfl⟩
  | cons item rest ih =>
    obtain ⟨inner, outer⟩ := ih
    rw [List.flatMap_cons, List.filter_append, List.filter_append, inner, outer]
    cases item with
    | declaration d =>
      have none_ : (d.tree.value.marks false).filter StepMark.inside = [] :=
        List.filter_eq_nil_iff.mpr fun m own => by simp [(Expr.marksReferring m own).2]
      have all : (d.tree.value.marks false).filter (fun m => !m.inside) = d.tree.value.marks false :=
        List.filter_eq_self.mpr fun m own => by simp [(Expr.marksReferring m own).2]
      rw [Item.marks, none_, all]
      exact ⟨rfl, rfl⟩
    | workflow w =>
      have all : w.tree.marks.filter StepMark.inside = w.tree.marks :=
        List.filter_eq_self.mpr Workflow.marksInside
      have none_ : w.tree.marks.filter (fun m => !m.inside) = [] :=
        List.filter_eq_nil_iff.mpr fun m own => by simp [Workflow.marksInside m own]
      rw [Item.marks, all, none_]
      exact ⟨rfl, rfl⟩

end Grammar
/-! The lines of the marks. -/

/- What is scanned later is not on an earlier line. -/
theorem Lexer.scanOrdered {line : Nat} {found : List Token} {s : List Char}
    (ordered : found.Pairwise fun later earlier => earlier.line ≤ later.line)
    (before : ∀ t ∈ found, t.line ≤ line) :
    (scan line found s).tokens.Pairwise fun earlier later => earlier.line ≤ later.line := by
  fun_induction scan line found s with
  | case1 line found => exact List.pairwise_reverse.mpr (.cons before ordered)
  | case2 line found c rest cutting ih =>
    exact ih ordered fun t inside => Nat.le_add_right_of_le (before t inside)
  | case3 line found c rest kind more cutting lexeme token ih =>
    refine ih (.cons before ordered) (List.forall_mem_cons.mpr ⟨Nat.le_add_right .., ?_⟩)
    exact fun t inside => Nat.le_add_right_of_le (before t inside)
  | case4 line found c rest cutting | case5 line found c rest cause other cutting =>
    exact List.pairwise_reverse.mpr ordered

theorem tokenizeOrdered {source : String} {ts : List Token} (tokenized : tokenize source = .ok ts) :
    ts.Pairwise fun earlier later => earlier.line ≤ later.line := by
  obtain ⟨_, rfl⟩ := tokenizeScanned tokenized
  exact Lexer.scanOrdered .nil nofun

theorem stepMarksLines (depth : Nat) (ts : List Token) :
    ((stepMarks depth ts).map StepMark.line).Sublist (ts.map fun t => some t.line) := by
  induction ts generalizing depth with
  | nil => exact .slnil
  | cons word rest ih =>
    rw [stepMarks, List.map_append]
    cases found : stepMarkAt? depth (word :: rest) with
    | none => exact (ih _).cons _
    | some m =>
      -- the line of a mark is that of its `step`
      have line : m.line = some word.line := by
        unfold stepMarkAt? at found
        split at found
        · rename_i same
          split at found
          · cases found
            cases same
            rfl
          · cases found
        · cases found
      change (m.line :: _).Sublist _
      rw [line]
      exact (ih _).cons_cons _

/-! The walk. -/

def Reference.place (r : Reference) : Int × Option Nat := (r.step, r.line)

/- A walk of the program meets what is marked in its text: every step where one opens, and every
reference where none does, in the order in which they are written. -/
structure Program.Walks (p : Program) (marks : List StepMark) : Prop where
  steps : p.walk.map (fun found => (found.2.id, found.2.line)) =
    (marks.filter StepMark.opens).map StepMark.place
  references : (p.walk.flatMap fun found => found.2.expressions.flatMap Expr.references).map Reference.place =
    (marks.filter fun m => !m.opens && m.inside).map StepMark.place
  values : (p.declarations.flatMap fun d => d.value.references).map Reference.place =
    (marks.filter fun m => !m.opens && !m.inside).map StepMark.place
  /- the references of a step stand behind its own number, and in front of that of the next step -/
  owned : p.walk.flatMap (fun found => found.2.marks) = marks.filter StepMark.inside
  outline : ∃ lines, p.outline? = some lines ∧
    List.Forall₂ (fun m line => ∃ purpose : String, line = s!"Step {m.id}: {purpose}")
      (marks.filter StepMark.opens) lines
  ordered : ∃ lines : List Nat, p.walk.map (fun found => found.2.line) = lines.map some ∧ lines.Pairwise (· ≤ ·)

section
variable {p : Program} {marks : List StepMark}

theorem Step.marksOpening (s : Step) : s.marks.filter StepMark.opens = [⟨s.id, s.line, true, true⟩] := by
  have none_ : (s.expressions.flatMap (Expr.marks true)).filter StepMark.opens = [] := by
    refine List.filter_eq_nil_iff.mpr fun m own => ?_
    obtain ⟨e, _, own⟩ := List.mem_flatMap.mp own
    simp [(Expr.marksReferring m own).1]
  rw [marks, List.filter_cons_of_pos rfl, none_]

theorem Step.marksRest (s : Step) :
    s.marks.filter (fun m => !m.opens) = s.expressions.flatMap (Expr.marks true) := by
  rw [marks, List.filter_cons_of_neg (by simp)]
  refine List.filter_eq_self.mpr fun m own => ?_
  obtain ⟨e, _, own⟩ := List.mem_flatMap.mp own
  simp [(Expr.marksReferring m own).1]

/- A step whose content is there has a line of the outline. -/
theorem Step.outlined {s : Step} (supplied : s.Supplied) :
    ∃ purpose : String, s.outline? = some s!"Step {s.id}: {purpose}" := by
  have conditional (id : Int) : ∃ purpose : String,
      s!"Step {id}: Conditional logic" = s!"Step {id}: {purpose}" := by
    refine ⟨"Conditional logic", ?_⟩
    rw [String.append_assoc, String.append_assoc, String.append_assoc]
    rfl
  cases s with
  | absent => cases supplied.content
  | command => exact ⟨_, rfl⟩
  | ifOnly id | ifElse id =>
    obtain ⟨purpose, same⟩ := conditional id
    exact ⟨purpose, congrArg some same⟩

theorem outlines {found : List (Workflow × Step)} (supplied : ∀ entry ∈ found, entry.2.Supplied) :
    ∃ lines, found.mapM (fun entry => entry.2.outline?) = some lines ∧
      List.Forall₂ (fun m line => ∃ purpose : String, line = s!"Step {m.id}: {purpose}")
        (found.map fun entry => (⟨entry.2.id, entry.2.line, true, true⟩ : StepMark)) lines := by
  induction found with
  | nil => exact ⟨[], rfl, .nil⟩
  | cons entry rest ih =>
    obtain ⟨first, others⟩ := List.forall_mem_cons.mp supplied
    obtain ⟨lines, all, each⟩ := ih others
    obtain ⟨purpose, here⟩ := Step.outlined first
    exact ⟨_ :: lines, by rw [List.mapM_cons, here, all]; rfl, .cons ⟨purpose, rfl⟩ each⟩

/- What is marked inside is what the steps have of marks, and what is marked outside what the values
have. -/
theorem Program.walksMarked {ts : List Token} (supplied : p.Supplied)
    (ordered : ts.Pairwise fun earlier later => earlier.line ≤ later.line)
    (inner : (stepMarks 0 ts).filter StepMark.inside = p.walk.flatMap fun found => found.2.marks)
    (outer : (stepMarks 0 ts).filter (fun m => !m.inside) =
      p.declarations.flatMap fun d => d.value.marks false) :
    p.Walks (stepMarks 0 ts) := by
  -- outside there are only the references of values, and no reference opens a step
  have noneOutside : ∀ m ∈ stepMarks 0 ts, m.opens = (m.opens && m.inside) := by
    intro m marked
    cases place : m.inside with
    | true => exact (Bool.and_true _).symm
    | false =>
      have outside : m ∈ (stepMarks 0 ts).filter (fun m => !m.inside) :=
        List.mem_filter.mpr ⟨marked, by simp [place]⟩
      rw [outer] at outside
      obtain ⟨d, _, own⟩ := List.mem_flatMap.mp outside
      rw [(Expr.marksReferring m own).1]
      rfl
  have opening : (stepMarks 0 ts).filter StepMark.opens =
      p.walk.map fun found => ⟨found.2.id, found.2.line, true, true⟩ := by
    rw [List.filter_congr noneOutside, ← List.filter_filter, inner, List.filter_flatMap]
    simp only [Step.marksOpening]
    exact List.flatMap_pure_eq_map _ _
  have places (inside : Bool) (e : Expr) :
      (e.marks inside).map StepMark.place = e.references.map Reference.place := List.map_map
  refine ⟨?steps, ?references, ?values, inner.symm, ?outline, ?ordered⟩
  case steps =>
    rw [opening, List.map_map]
    rfl
  case references =>
    have referring : (stepMarks 0 ts).filter (fun m => !m.opens && m.inside) =
        p.walk.flatMap fun found => found.2.expressions.flatMap (Expr.marks true) := by
      rw [← List.filter_filter, inner, List.filter_flatMap]
      simp only [Step.marksRest]
    rw [referring]
    simp only [List.map_flatMap, places]
  case values =>
    have valued : (stepMarks 0 ts).filter (fun m => !m.opens && !m.inside) =
        p.declarations.flatMap fun d => d.value.marks false := by
      rw [← List.filter_filter, outer, List.filter_flatMap]
      refine List.flatMap_congr fun d _ => List.filter_eq_self.mpr fun m own => ?_
      rw [(Expr.marksReferring m own).1]
      rfl
    rw [valued]
    simp only [List.map_flatMap, places]
  case outline =>
    rw [opening]
    exact outlines supplied.steps
  case ordered =>
    have walked : (p.walk.map fun found => found.2.line) =
        ((stepMarks 0 ts).filter StepMark.opens).map StepMark.line := by
      rw [opening, List.map_map]
      rfl
    have among : (p.walk.map fun found => found.2.line).Sublist ((ts.map Token.line).map some) := by
      rw [walked, List.map_map]
      exact (List.filter_sublist.map _).trans (stepMarksLines 0 ts)
    obtain ⟨lines, part, same⟩ := List.sublist_map_iff.mp among
    exact ⟨lines, same, (List.pairwise_map.mpr ordered).sublist part⟩

end

/- Nothing that a text writes as a step or a reference is lost, doubled or out of place in the program that
is read from it. -/
theorem parseWalks {source : String} {ts : List Token} {p : Program} (tokenized : tokenize source = .ok ts)
    (read : parse ts = .ok p) : p.Walks (stepMarks 0 ts) := by
  have spelled := tokenizeSpelled tokenized
  obtain ⟨_, d, yields, rfl⟩ := parseDerived spelled read
  obtain ⟨each, last, rfl, written⟩ := tokenizeWritten tokenized
  rw [beforeEndWritten written] at yields
  have marks : stepMarks 0 (each ++ [.endAt last]) = d.flatMap Grammar.Item.marks := by
    rw [← yields, d.marked.read _ rfl]
    exact List.append_nil _
  obtain ⟨inner, outer⟩ := d.marksApart
  exact Program.walksMarked (parseSupplied spelled read) (tokenizeOrdered tokenized)
    (by rw [marks, inner, Program.walkMarks]) (by rw [marks, outer])

/- A reference where a value is declared, a condition, and a step within a step. -/
def nestedText : String :=
  "let a = step 7\nworkflow 'w' \x7b step 1: if (step 2 == a) \x7b\nstep 2: log(step 1.b) \x7d \x7d"

def nestedTokens : List Token :=
  [⟨.keyword .letWord, "let", none, 1⟩, ⟨.identifier, "a", none, 1⟩, ⟨.mark .equal, "=", none, 1⟩,
    ⟨.keyword .step, "step", none, 1⟩, ⟨.number, "7", some "7", 1⟩,
    ⟨.keyword .workflow, "workflow", none, 2⟩, ⟨.string, "'w'", some "w", 2⟩,
    ⟨.mark .leftBrace, "\x7b", none, 2⟩, ⟨.keyword .step, "step", none, 2⟩,
    ⟨.number, "1", some "1", 2⟩, ⟨.mark .colon, ":", none, 2⟩, ⟨.keyword .ifWord, "if", none, 2⟩,
    ⟨.mark .leftParen, "(", none, 2⟩, ⟨.keyword .step, "step", none, 2⟩,
    ⟨.number, "2", some "2", 2⟩, ⟨.mark .equalEqual, "==", none, 2⟩, ⟨.identifier, "a", none, 2⟩,
    ⟨.mark .rightParen, ")", none, 2⟩, ⟨.mark .leftBrace, "\x7b", none, 2⟩,
    ⟨.keyword .step, "step", none, 3⟩, ⟨.number, "2", some "2", 3⟩, ⟨.mark .colon, ":", none, 3⟩,
    ⟨.keyword .log, "log", none, 3⟩, ⟨.mark .leftParen, "(", none, 3⟩,
    ⟨.keyword .step, "step", none, 3⟩, ⟨.number, "1", some "1", 3⟩, ⟨.mark .dot, ".", none, 3⟩,
    ⟨.identifier, "b", none, 3⟩, ⟨.mark .rightParen, ")", none, 3⟩,
    ⟨.mark .rightBrace, "\x7d", none, 3⟩, ⟨.mark .rightBrace, "\x7d", none, 3⟩, .endAt 3]

def nestedProgram : Program :=
  ⟨[⟨"let", "a", .result 7 none (some 1), some 1⟩],
    [⟨"w", [.ifOnly 1 (.binary (.result 2 none (some 2)) "==" (.name "a" (some 2)) (some 2))
      [.command 2 "log" [.result 1 (some "b") (some 3)] (some 3) (some 3)] (some 2) (some 2)], some 2⟩],
    some 1⟩

theorem nestedTextWalks :
    tokenize nestedText = .ok nestedTokens ∧ parse nestedTokens = .ok nestedProgram ∧
      nestedProgram.Walks (stepMarks 0 nestedTokens) ∧
      stepMarks 0 nestedTokens = [⟨7, some 1, false, false⟩, ⟨1, some 2, true, true⟩,
        ⟨2, some 2, false, true⟩, ⟨2, some 3, true, true⟩, ⟨1, some 3, false, true⟩] := by
  have tokenized : tokenize nestedText = .ok nestedTokens := by cbv
  have read : parse nestedTokens = .ok nestedProgram := by rfl
  exact ⟨tokenized, read, parseWalks tokenized read, by decide⟩

end Stepwise
