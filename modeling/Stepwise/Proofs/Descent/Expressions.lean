import Stepwise.Proofs.Descent.Follows

/-! Expressions and commands, read by descent. Each function follows the state that assembly is in where the
function is called, and comes to the state behind what it reads. -/
namespace Stepwise.Descent.Row
open Assembly

variable {row : Row} {s : State} {left rest : List Token} {t : Token} {slot : Slot} {joint : Option Joint}
  {block : Block} {head : Head} {call : Call} {rounds : Nat}

/-! Expressions. -/

/- A property behind a point, if there is a point. -/
theorem propertyFollows {further : State} {next : Option String → State}
    (goes : ∀ t, s.extend? t = if t.kind = .mark .dot then some further else (next none).extend? t)
    (settles : s.settle = (next none).settle)
    (requires : Requires further .identifier .propertyName fun t => .ok (next (some t.lexeme))) :
    row.Follows (property? row.tokens) s left next fun _ _ => True :=
  .continued (by decide) goes settles (fun _ _ _ => .leaf requires fun _ _ _ => .pure rfl trivial)
    fun _ => .pure rfl trivial

theorem nameFollows {name : String} {line : Nat} :
    row.Follows (property? row.tokens) (s.move (.nameRead slot joint name line)) left
      (fun part => s.move (.operandRead slot (joined joint (match part with
        | some part => .property (.name name (some line)) part (some line)
        | none => .name name (some line))))) fun _ _ => True :=
  propertyFollows extendName rfl ⟨by decide, rfl, rfl, fun _ => rfl⟩

theorem referenceFollows {id : Int} {line : Nat} :
    row.Follows (property? row.tokens) (s.move (.referenceRead slot joint id line)) left
      (fun part => s.move (.operandRead slot (joined joint (.result id part (some line)))))
      fun _ _ => True :=
  propertyFollows extendReference rfl ⟨by decide, rfl, rfl, fun _ => rfl⟩

theorem referencedFollows {line : Nat} :
    row.Follows (stepNumber row.tokens .referencedNumber) (s.move (.referencedNumber slot joint line)) left
      (fun id => s.move (.referenceRead slot joint id line)) fun _ _ => True :=
  .number ⟨by decide, rfl, rfl, fun _ => rfl⟩

theorem primaryFollows :
    row.Follows (primary row.tokens) (s.move (.operand slot joint)) left
      (fun e => s.move (.operandRead slot (joined joint e))) fun _ _ => True := by
  cases left with
  | nil =>
    refine .peek ?_
    have stops : (row.first []).kind = .endOfInput := row.ends
    simp only [stops]
    exact .refuse rfl
  | cons t rest =>
    have fed : (s.move (.operand slot joint)).feed t = (s.move (.operand slot joint)).operand slot joint t :=
      State.feedClosed rfl t
    have refused (other : ∀ s : State, s.operand slot joint t = .error (.unexpected .operand)) :
        row.Follows (refuse row.tokens .operand) (s.move (.operand slot joint)) (t :: rest)
          (fun e => s.move (.operandRead slot (joined joint e))) fun _ _ => True :=
      .refuse (fed.trans (other _))
    refine .see ?_
    unfold State.operand at fed refused
    cases kind : t.kind with
    | string =>
      rw [kind] at fed
      exact .advance fed (.pure rfl trivial)
    | number =>
      rw [kind] at fed
      dsimp only at fed ⊢
      cases read : Numeral.read? t.lexeme with
      | some x =>
        rw [read] at fed
        exact .advance fed (.pure rfl trivial)
      | none =>
        rw [read] at fed
        exact .blame fed (fun _ => by simp) rfl
    | identifier =>
      rw [kind] at fed
      refine .advance fed (.bind nameFollows fun part rest _ _ => ?_)
      cases part <;> exact .pure rfl trivial
    | keyword word =>
      rw [kind] at fed refused
      cases word with
      | step =>
        refine .advance fed (.bind referencedFollows fun id rest _ _ => ?_)
        exact .bind referenceFollows fun part rest _ _ => .pure rfl trivial
      | _ => exact refused fun _ => rfl
    | mark m =>
      rw [kind] at refused
      exact refused fun _ => rfl
    | endOfInput =>
      rw [kind] at refused
      exact refused fun _ => rfl

theorem joinsExtended {e : Expr} {t : Token} (h : joins t.kind = true) :
    (s.move (.operandRead slot e)).extend? t =
      some (s.move (.operand slot (some ⟨e, t.lexeme, t.line⟩))) := by
  rw [extendOperand]
  cases kind : t.kind with
  | mark m =>
    rw [kind] at h
    exact if_pos h
  | _ =>
    rw [kind] at h
    cases h

theorem joinsNot {e : Expr} {t : Token} (h : ¬ joins t.kind = true) :
    (s.move (.operandRead slot e)).extend? t = none := by
  rw [extendOperand]
  cases kind : t.kind with
  | mark m =>
    rw [kind] at h
    exact if_neg h
  | _ => rfl

/- Each round of the loop passes an operator, so that no more rounds are taken than there are tokens. -/
theorem chainFollows {e : Expr} (enough : left.length < rounds) :
    row.Follows (chain row.tokens rounds e) (s.move (.operandRead slot e)) left (fun e => s.fill e slot)
      fun _ _ => True := by
  induction rounds generalizing left e with
  | zero => exact absurd enough (Nat.not_lt_zero _)
  | succ rounds ih =>
    have filled : (s.move (.operandRead slot e)).settle = s.fill e slot := by cases slot <;> rfl
    cases left with
    | nil =>
      refine .peek ?_
      rw [if_neg (by rw [show (row.first []).kind = _ from row.ends]; decide)]
      exact .pure (filled ▸ runSettled (by simp)) trivial
    | cons t rest =>
      refine .see ?_
      split
      · rename_i joined
        refine .advance (State.feedExtended (joinsExtended joined)) ?_
        refine .bind primaryFollows fun right rest' shorter _ => ih ?_
        rw [List.length_cons] at enough
        omega
      · rename_i ends
        refine .pure (filled ▸ runSettled fun u next => ?_) trivial
        exact joinsNot (Option.some.inj next ▸ ends)

theorem expressionFollows (enough : left.length < rounds) :
    row.Follows (expression row.tokens rounds) (s.move (.operand slot none)) left (fun e => s.fill e slot)
      fun _ _ => True :=
  .bind primaryFollows fun _ _ shorter _ => chainFollows (Nat.lt_of_le_of_lt shorter enough)

/-! Commands. -/

theorem furtherFollows {before : List Expr} (enough : left.length < rounds) :
    row.Follows (furtherArguments row.tokens rounds before) (s.move (.argumentsEnd block call before)) left
      (fun found => s.move (.argumentsEnd block call found))
      fun _ rest => (row.first rest).kind ≠ .mark .comma := by
  induction rounds generalizing left before with
  | zero => exact absurd enough (Nat.not_lt_zero _)
  | succ rounds ih =>
    refine .take (by decide) (fun t rest split comma => ?_) fun other => .pure rfl other
    have fed : (s.move (.argumentsEnd block call before)).feed t =
        .ok (s.move (.operand (.argument block call before) none)) := by
      rw [State.feedClosed rfl]
      exact (if_neg (by rw [comma]; decide)).trans (if_pos comma)
    have enough : rest.length < rounds := by
      rw [split, List.length_cons] at enough
      omega
    exact ⟨_, fed, .bind (expressionFollows enough)
      fun e rest' shorter _ => ih (Nat.lt_of_le_of_lt shorter enough)⟩

theorem argumentsFollows (enough : left.length < rounds) :
    row.Follows (arguments row.tokens rounds) (s.move (.argumentsStart block call)) left
      (fun found => s.move (.argumentsEnd block call found))
      fun _ rest => (row.first rest).kind ≠ .mark .comma := by
  refine .choose (fun closes => .pure ?_ (by rw [closes]; decide)) fun other => ?_
  · -- either state takes the parenthesis, and comes to the same one
    refine runAlike (fun t next => ?_) fun none => ?_
    · obtain ⟨rest, rfl⟩ := List.head?_eq_some_iff.mp next
      rw [State.feedClosed rfl, State.feedClosed rfl]
      exact (if_pos closes).trans (if_pos closes).symm
    · rw [none] at closes
      exact absurd (closes.symm.trans row.ends) (by decide)
  · have like : run row.stop.line (s.move (.argumentsStart block call)) left =
        run row.stop.line (s.move (.operand (.argument block call []) none)) left := by
      refine runAlike (fun t next => ?_) fun _ => rfl
      rw [State.feedClosed rfl, State.feedClosed rfl]
      exact if_neg (firstNot other t next)
    exact .like like (.bind (expressionFollows enough) fun e rest shorter _ =>
      furtherFollows (Nat.lt_of_le_of_lt shorter enough))

theorem commandNamed (named : startsCommand t.kind = true) :
    (s.move (.stepContent block head)).feed t =
      .ok (s.move (.commandRead block ⟨head, t.lexeme, t.line⟩)) := by
  rw [State.feedClosed rfl]
  simp only [State.shift, State.move]
  cases kind : t.kind with
  | identifier => rfl
  | keyword word =>
    rw [kind] at named
    cases word <;> first | rfl | cases named
  | _ =>
    rw [kind] at named
    cases named

theorem commandUnnamed (unnamed : ¬ startsCommand t.kind = true) (other : t.kind ≠ .keyword .ifWord) :
    (s.move (.stepContent block head)).feed t = .error (.unexpected .commandName) := by
  rw [State.feedClosed rfl]
  simp only [State.shift, State.move]
  cases kind : t.kind with
  | identifier => exact absurd (congrArg startsCommand kind) unnamed
  | keyword word =>
    rw [kind] at unnamed other
    cases word <;> first | rfl | exact absurd rfl unnamed | exact absurd rfl other
  | _ => rfl

/- Behind the arguments there is nothing but the closing parenthesis, as a comma would have gone on. -/
theorem argumentsEndFollows {found : List Expr} (other : (row.first left).kind ≠ .mark .comma) :
    row.Follows (consume row.tokens (.mark .rightParen) .argumentsEnd)
      (s.move (.argumentsEnd block call found)) left
      (fun _ => s.move (.steps (block.add (call.step found)))) fun _ _ => True := by
  refine .weaken (.consume (by decide) (fun t rest _ closes => ?_) fun open_ => ?_) fun _ _ _ _ => trivial
  · rw [State.feedClosed rfl]
    exact if_pos closes
  · cases left with
    | nil => rfl
    | cons t rest =>
      refine (State.feedClosed rfl t).trans ?_
      exact (if_neg open_).trans (if_neg other)

/- A step that is not a conditional. -/
theorem commandFollows (enough : left.length < rounds) (other : (row.first left).kind ≠ .keyword .ifWord) :
    row.Follows (command row.tokens rounds head) (s.move (.stepContent block head)) left
      (fun found => s.move (.steps (block.add found))) fun _ _ => True := by
  refine .peek ?_
  cases left with
  | nil =>
    rw [if_neg (by rw [show (row.first []).kind = _ from row.ends]; decide)]
    exact .refuse rfl
  | cons t rest =>
    split
    · rename_i named
      refine .advance (commandNamed named) ?_
      refine .continued (by decide) extendCommand rfl (fun u rest' split => ?_) ?_
      · have enough : rest'.length < rounds := by
          rw [List.length_cons, split, List.length_cons] at enough
          omega
        refine .bind (argumentsFollows enough) fun found behind _ other => ?_
        exact .bind (argumentsEndFollows other) fun _ _ _ _ => .pure rfl trivial
      · exact fun _ => .pure rfl trivial
    · rename_i unnamed
      exact .refuse (commandUnnamed unnamed other)

end Stepwise.Descent.Row
