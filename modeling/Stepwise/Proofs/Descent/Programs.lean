import Stepwise.Proofs.Descent.Expressions

/-! Steps, blocks and programs, read by descent. What is read within a block is by assumption what reads
fewer tokens than the block; the loop over steps, which is that reader, then discharges it. -/
namespace Stepwise.Descent.Row
open Assembly

variable {row : Row} {s : State} {left rest : List Token} {t : Token} {block : Block} {head : Head}
  {rounds limit : Nat} {inner : Reader (List Step)} {wanted : Wanted}

/- The steps of one block: each of them is put behind the others. -/
def Builds (build : List Step → Block) : Prop := ∀ before x, (build before).add x = build (before ++ [x])

/- What reads the steps of a block follows assembly up to the closing brace, or to the end. -/
def Reads (row : Row) (inner : Reader (List Step)) (limit : Nat) : Prop :=
  ∀ {left : List Token} {s : State} {build : List Step → Block}, Builds build → left.length < limit →
    row.Follows inner (s.move (.steps (build []))) left (fun found => s.move (.steps (build found)))
      fun _ rest => ∀ t ∈ rest.head?, t.kind = .mark .rightBrace

theorem braceFollows (atBrace : ∀ t ∈ left.head?, t.kind = .mark .rightBrace) :
    row.Follows (consume row.tokens (.mark .rightBrace) block.wantedEnd) (s.move (.steps block)) left
      (fun _ => s.close block) fun _ _ => True := by
  have closing : (s.move (.steps block)).close block = s.close block := by cases block <;> rfl
  refine .weaken (.consume (by decide) (fun t rest _ closes => ?_) fun other => ?_) fun _ _ _ _ => trivial
  · rw [State.feedClosed rfl, ← closing]
    exact if_pos closes
  · cases left with
    | nil => rfl
    | cons t rest => exact absurd (atBrace t rfl) other

theorem blockFollows (build : List Step → Block) (reads : row.Reads inner limit) (builds : Builds build)
    (ends : ∀ found, (build found).wantedEnd = wanted) (few : left.length < limit) :
    row.Follows (Descent.block row.tokens inner wanted) (s.move (.steps (build []))) left
      (fun found => s.close (build found)) fun _ _ => True := by
  refine .bind (reads builds few) fun found rest _ atBrace => ?_
  rw [← ends found]
  exact .bind (braceFollows atBrace) fun _ _ _ _ => .pure rfl trivial

theorem conditionalFollows (reads : row.Reads inner limit) (few : rest.length < limit)
    (enough : rest.length < rounds) (conditional : t.kind = .keyword .ifWord) :
    row.Follows (Descent.conditional row.tokens rounds inner head) (s.move (.stepContent block head))
      (t :: rest) (fun found => s.move (.steps (block.add found))) fun _ _ => True := by
  have fed : (s.move (.stepContent block head)).feed t =
      .ok (s.move (.conditionStart block head t.line)) := by
    rw [State.feedClosed rfl]
    simp only [State.shift, State.move, conditional]
  refine .again conditional fed (.leaf ⟨by decide, rfl, rfl, fun _ => rfl⟩ fun _ inTest short₁ => ?_)
  refine .bind (expressionFollows (by omega)) fun condition behindTest short₂ _ => ?_
  refine .leaf ⟨by decide, rfl, rfl, fun _ => rfl⟩ fun _ atBody short₃ => ?_
  refine .leaf ⟨by decide, rfl, rfl, fun _ => rfl⟩ fun _ inBody short₄ => ?_
  refine .bind (blockFollows (.thenPart block head condition t.line) reads (fun _ _ => rfl) (fun _ => rfl)
    (by omega)) fun body behindBody short₅ _ => ?_
  refine .continued (by decide) extendBody rfl (fun u atOther split => ?_) fun _ => .pure rfl trivial
  have short₆ : atOther.length < behindBody.length := by
    rw [split]
    exact Nat.lt_succ_self _
  refine .leaf ⟨by decide, rfl, rfl, fun _ => rfl⟩ fun _ inOther short₇ => ?_
  exact .bind (blockFollows (.elsePart block head condition t.line body) reads (fun _ _ => rfl)
    (fun _ => rfl) (by omega)) fun other _ _ _ => .pure rfl trivial

theorem stepWordFollows (goesOn : t.kind ≠ .mark .rightBrace) :
    row.Follows (consume row.tokens (.keyword .step) .step) (s.move (.steps block)) (t :: rest)
      (fun word => s.move (.stepNumber block word.line)) fun _ behind => behind = rest := by
  have fed (u : Token) (same : u.kind = .keyword .step) :
      (s.move (.steps block)).feed u = .ok (s.move (.stepNumber block u.line)) := by
    rw [State.feedClosed rfl]
    exact (if_neg (by rw [same]; decide)).trans (if_pos same)
  refine .weaken (.consume (by decide) (fun u _ _ same => fed u same) fun other => ?_) fun _ _ _ split => ?_
  · exact (State.feedClosed rfl t).trans ((if_neg goesOn).trans (if_neg other))
  · exact (List.cons.inj split.1).2.symm

theorem stepFollows (reads : row.Reads inner limit) (few : rest.length < limit)
    (enough : rest.length < rounds) (goesOn : t.kind ≠ .mark .rightBrace) :
    row.Follows (step row.tokens rounds inner) (s.move (.steps block)) (t :: rest)
      (fun found => s.move (.steps (block.add found))) fun _ behind => behind.length ≤ rest.length := by
  refine .bind (stepWordFollows goesOn) fun word behindWord _ same => ?_
  subst same
  refine .within ?_
  have numbers : row.Follows (stepNumber row.tokens .stepNumber) (s.move (.stepNumber block word.line))
      behindWord (fun id => s.move (.stepColon block ⟨id, word.line⟩)) fun _ _ => True :=
    .number ⟨by decide, rfl, rfl, fun _ => rfl⟩
  refine .bind numbers fun id behindNumber short₁ _ => ?_
  refine .leaf ⟨by decide, rfl, rfl, fun _ => rfl⟩ fun _ atContent short₂ => ?_
  refine .choose (fun same => ?_) (commandFollows (by omega))
  cases atContent with
  | nil => exact absurd (same.symm.trans row.ends) (by decide)
  | cons u behind =>
    rw [List.length_cons] at short₂
    exact conditionalFollows reads (by omega) (by omega) same

/- Each round passes the word that a step begins with; a block within a step has fewer rounds and fewer
tokens. -/
theorem stepsFollows {before : List Step} {build : List Step → Block} (builds : Builds build)
    (enough : left.length < rounds) :
    row.Follows (steps row.tokens rounds before) (s.move (.steps (build before))) left
      (fun found => s.move (.steps (build found)))
      fun _ rest => ∀ t ∈ rest.head?, t.kind = .mark .rightBrace := by
  induction rounds generalizing left s before build with
  | zero => exact absurd enough (Nat.not_lt_zero _)
  | succ rounds ih =>
    have reads : row.Reads (steps row.tokens rounds []) rounds := fun builds few => ih builds few
    refine .choose (fun closes => .pure rfl fun t next => ?_) fun goesOn => .atEnd (fun none => ?_) ?_
    · obtain ⟨rest, rfl⟩ := List.head?_eq_some_iff.mp next
      exact closes
    · subst none
      exact .pure rfl (by simp)
    · rintro t rest rfl
      rw [List.length_cons] at enough
      refine .bind (stepFollows reads (by omega) (by omega) goesOn) fun found behind _ short => ?_
      rw [builds]
      exact ih builds (by omega)

theorem stepsRead : row.Reads (steps row.tokens rounds []) rounds := fun builds few => stepsFollows builds few

/-! Programs. -/

variable {declarations : List Declaration} {workflows : List Workflow}

theorem workflowFollows (enough : rest.length < rounds) (keyword : t.kind = .keyword .workflow) :
    row.Follows (workflow row.tokens rounds) ⟨declarations, workflows, .top⟩ (t :: rest)
      (fun found => ⟨declarations, workflows ++ [found], .top⟩)
      fun _ behind => behind.length ≤ rest.length := by
  have fed : (⟨declarations, workflows, .top⟩ : State).feed t =
      .ok ⟨declarations, workflows, .workflowName t.line⟩ := by
    rw [State.feedClosed rfl]
    simp only [State.shift, State.move, keyword]
  refine .again keyword fed (.within (.leaf ⟨by decide, rfl, rfl, fun _ => rfl⟩ fun name _ short₁ => ?_))
  refine .leaf ⟨by decide, rfl, rfl, fun _ => rfl⟩ fun _ inBody short₂ => ?_
  exact .bind (blockFollows (.workflow (name.literal.getD "") t.line) stepsRead (fun _ _ => rfl)
    (fun _ => rfl) (by omega)) fun found _ _ _ => .pure rfl trivial

theorem declarationFollows {word : Keyword} (enough : rest.length < rounds) (keyword : t.kind = .keyword word)
    (declares : word.declares = true) :
    row.Follows (declaration row.tokens rounds word) ⟨declarations, workflows, .top⟩ (t :: rest)
      (fun found => ⟨declarations ++ [found], workflows, .top⟩)
      fun _ behind => behind.length ≤ rest.length := by
  have fed : (⟨declarations, workflows, .top⟩ : State).feed t =
      .ok ⟨declarations, workflows, .variableName word t.line⟩ := by
    rw [State.feedClosed rfl]
    simp only [State.shift, State.move, keyword]
    cases word <;> first | rfl | cases declares
  refine .advance fed (.within (.leaf ⟨by decide, rfl, rfl, fun _ => rfl⟩ fun name _ short₁ => ?_))
  refine .leaf ⟨by decide, rfl, rfl, fun _ => rfl⟩ fun _ inValue short₂ => ?_
  exact .bind (expressionFollows (by omega)) fun value _ _ _ => .pure rfl trivial

/- A token that begins neither a workflow nor a declaration. -/
theorem topRefused (goesOn : t.kind ≠ .keyword .workflow)
    (other : ∀ word, t.kind = .keyword word → ¬ word.declares = true) :
    (⟨declarations, workflows, .top⟩ : State).feed t = .error (.unexpected .topLevel) := by
  rw [State.feedClosed rfl]
  simp only [State.shift]
  cases kind : t.kind with
  | keyword word =>
    have silent := other word kind
    rw [kind] at goesOn
    cases word <;> first | rfl | exact absurd rfl goesOn | exact absurd rfl silent
  | _ => rfl

/- Each round passes the word that a workflow or a declaration begins with. -/
theorem itemsFollows (enough : left.length < rounds) :
    row.Follows (items row.tokens rounds declarations workflows) ⟨declarations, workflows, .top⟩ left
      (fun p => ⟨p.declarations, p.workflows, .top⟩) fun p rest => p.line = some 1 ∧ rest = [] := by
  induction rounds generalizing left declarations workflows with
  | zero => exact absurd enough (Nat.not_lt_zero _)
  | succ rounds ih =>
    refine .atEnd (fun none => .pure rfl ⟨rfl, none⟩) ?_
    rintro t rest rfl
    rw [List.length_cons] at enough
    refine .see ?_
    have refused (goesOn : t.kind ≠ .keyword .workflow)
        (other : ∀ word, t.kind = .keyword word → ¬ word.declares = true) :
        row.Follows (refuse row.tokens .topLevel) ⟨declarations, workflows, .top⟩ (t :: rest)
          (fun p => ⟨p.declarations, p.workflows, .top⟩)
          fun (p : Program) rest => p.line = some 1 ∧ rest = [] :=
      .refuse (topRefused goesOn other)
    split
    · rename_i keyword
      exact .bind (workflowFollows (by omega) keyword) fun found behind _ short => ih (by omega)
    · rename_i word other keyword
      split
      · rename_i declares
        exact .bind (declarationFollows (by omega) keyword declares) fun found behind _ short => ih (by omega)
      · rename_i silent
        have itself {other : Keyword} (same : t.kind = .keyword other) : word = other :=
          TokenKind.keyword.inj (keyword.symm.trans same)
        exact refused (fun same => other (itself same)) fun _ same => itself same ▸ silent
    · rename_i other
      exact refused (other _) fun word same => (other word same).elim

end Stepwise.Descent.Row
