import Stepwise.Proofs.Grammar.Supplied

/-! Conditions in closed form. Operators associate to the left and only the last one is outermost, so
a comparison is made if it is the only one and stands last; any other comparison is evaluated as an
operator and refused. -/
namespace Stepwise.Grammar
open Stepwise.Expr

/-- The value of an operand of which all references resolve. -/
def Primary.value (t : Tables) (d : Primary) : String := String.join (d.tree.pieces t)

def Primary.shown (d : Primary) : String := d.tree.render?.getD ""

def concatenation (t : Tables) (ds : List Primary) : String := String.join (ds.map (·.value t))

/-- The operands and the operators, with a blank between each two of them. -/
def rendering (first : Primary) (links : List (Operator × Primary)) : String :=
  first.shown ++ String.join (links.map fun link => " " ++ link.1.val.lexeme ++ " " ++ link.2.shown)

def concatenates (link : Operator × Primary) : Bool := link.1.val.lexeme = "+"

/-- The truth of a condition, by the first of its operators that is not a concatenation: without one
it is the truth of the whole value; the last operator compares; any earlier one is refused. -/
def Chain.verdict (t : Tables) (chain : Chain) : Except EvalError Bool :=
  let front := chain.more.takeWhile concatenates
  match chain.more.dropWhile concatenates with
  | [] => .ok (isTruthy (concatenation t (chain.first :: chain.more.map (·.2))))
  | [(op, last)] =>
      compare (concatenation t (chain.first :: front.map (·.2))) op.val.lexeme (last.value t)
  | (op, d) :: _ :: _ =>
      .error (.unknownOperator op.val.lexeme (rendering chain.first (front ++ [(op, d)])))

variable {t : Tables} {e : Expr} {links front behind : List (Operator × Primary)}

theorem Primary.evaluated {d : Primary} (resolved : Resolved t d.tree) :
    d.tree.eval t = .ok (d.value t) := by
  have single : ∀ left operator right line, .binary left operator right line ∉ d.tree.postorder := by
    cases d with
    | name word part => cases part <;> simp [Primary.tree, postorder]
    | _ => simp [Primary.tree, postorder]
  have whole : Evaluable t d.tree :=
    ⟨d.treeSupplied, resolved, fun left operator right line inside =>
      absurd inside (single left operator right line)⟩
  obtain ⟨value, ok⟩ := (evalSome t d.tree).mpr whole
  rw [ok, evalValue ok, Primary.value]

theorem Primary.rendered (d : Primary) : d.tree.render? = some d.shown := by
  unfold Primary.shown
  cases d with
  | name word part => cases part <;> simp [Primary.tree, render?]
  | _ => simp [Primary.tree, render?]

theorem linkedRendered (first : Primary) (links : List (Operator × Primary)) :
    (linked first.tree links).render? = some (rendering first links) := by
  induction links using List.reverseRecOn with
  | nil => simp [linked, rendering, first.rendered]
  | append_singleton links link ih =>
    rw [linkedLast]
    simp [render?, rendering, ih, link.2.rendered, String.append_assoc]

theorem linkedResolved (resolved : Resolved t (linked e links)) :
    Resolved t e ∧ ∀ link ∈ links, Resolved t link.2.tree := by
  induction links generalizing e with
  | nil => exact ⟨resolved, by simp⟩
  | cons link links ih =>
    rw [linkedNext] at resolved
    obtain ⟨both, others⟩ := ih resolved
    exact ⟨resolvedLeft both, List.forall_mem_cons.mpr ⟨resolvedRight both, others⟩⟩

/- An operand that fails fails everything to its right. -/
theorem linkedFailed {x : EvalError} (failed : e.eval t = .error x) :
    (linked e links).eval t = .error x := by
  induction links generalizing e with
  | nil => exact failed
  | cons link links ih =>
    rw [linkedNext]
    exact ih (by simp only [eval, failed])

theorem linkedConcatenated {value : String} (ok : e.eval t = .ok value)
    (plus : ∀ link ∈ links, concatenates link = true)
    (resolved : ∀ link ∈ links, Resolved t link.2.tree) :
    (linked e links).eval t = .ok (value ++ concatenation t (links.map (·.2))) := by
  induction links generalizing e value with
  | nil => simpa [linked, concatenation] using ok
  | cons link links ih =>
    obtain ⟨here, later⟩ := List.forall_mem_cons.mp plus
    obtain ⟨operand, others⟩ := List.forall_mem_cons.mp resolved
    have joined : (Expr.binary e link.1.val.lexeme link.2.tree (some link.1.val.line)).eval t =
        .ok (value ++ link.2.value t) := by
      simp [eval, ok, Primary.evaluated operand, of_decide_eq_true here]
    rw [linkedNext, ih joined later others]
    simp [concatenation, String.append_assoc]

theorem chainConcatenated {first : Primary} (plus : ∀ link ∈ links, concatenates link = true)
    (resolved : Resolved t (linked first.tree links)) :
    (linked first.tree links).eval t = .ok (concatenation t (first :: links.map (·.2))) := by
  obtain ⟨head, others⟩ := linkedResolved resolved
  have value := linkedConcatenated (Primary.evaluated head) plus others
  simpa [concatenation] using value

/- The first operator that does not concatenate is refused, whatever stands behind it. -/
theorem chainRefused {first : Primary} {link : Operator × Primary}
    (plus : ∀ link ∈ front, concatenates link = true) (other : concatenates link = false)
    (resolved : Resolved t (linked first.tree (front ++ link :: behind))) :
    (linked first.tree (front ++ link :: behind)).eval t =
      .error (.unknownOperator link.1.val.lexeme (rendering first (front ++ [link]))) := by
  rw [List.append_cons, linkedAppend] at resolved ⊢
  refine linkedFailed ?_
  have both := (linkedResolved resolved).1
  rw [linkedLast] at both ⊢
  have value := chainConcatenated plus (resolvedLeft both)
  have operand := Primary.evaluated (resolvedRight both)
  have shown := linkedRendered first (front ++ [link])
  rw [linkedLast] at shown
  have apart : ¬ link.1.val.lexeme = "+" := of_decide_eq_false other
  simp only [eval, value, operand, if_neg apart, shown]

theorem chainTruth {first : Primary} (plus : ∀ link ∈ links, concatenates link = true)
    (resolved : Resolved t (linked first.tree links)) :
    (linked first.tree links).condition t =
      .ok (isTruthy (concatenation t (first :: links.map (·.2)))) := by
  rw [conditionPlain, chainConcatenated plus resolved]
  · rfl
  · intro left operator right line same
    cases links using List.reverseRecOn with
    | nil =>
      cases first with
      | name word part => cases part <;> cases same
      | _ => cases same
    | append_singleton links link =>
      rw [linkedLast] at same
      cases same
      have joins : link.1.val.lexeme = "+" := of_decide_eq_true (plus link (by simp))
      rw [joins]
      decide

/- The verdict is by the first operator that is no concatenation. Only if it is the last operator is
it the outermost one. -/
theorem Chain.decided {chain : Chain} (resolved : Resolved t chain.tree)
    (known : ∀ link ∈ chain.more, concatenates link = true ∨
      ∃ c, Comparison.ofSymbol? link.1.val.lexeme = some c) :
    chain.tree.condition t = chain.verdict t := by
  obtain ⟨first, more⟩ := chain
  have parts := List.takeWhile_append_dropWhile (p := concatenates) (l := more)
  have plus : ∀ link ∈ more.takeWhile concatenates, concatenates link = true :=
    fun link inside => List.mem_takeWhile_imp inside
  have stops := List.head?_dropWhile_not concatenates more
  unfold Chain.verdict
  simp only [Chain.tree] at resolved known ⊢
  generalize more.takeWhile concatenates = front at parts plus ⊢
  generalize more.dropWhile concatenates = rest at parts stops ⊢
  subst parts
  match rest with
  | [] =>
    simp only [List.append_nil] at resolved ⊢
    exact chainTruth plus resolved
  | [link] =>
    have other : concatenates link = false := by simpa using stops
    obtain joins | ⟨c, compares⟩ := known link (by simp)
    · rw [other] at joins
      cases joins
    · rw [linkedLast] at resolved ⊢
      exact conditionCompared compares (chainConcatenated plus (resolvedLeft resolved))
        (Primary.evaluated (resolvedRight resolved))
  | link :: next :: others =>
    have other : concatenates link = false := by simpa using stops
    obtain ⟨between, last, same⟩ := List.eq_nil_or_concat (next :: others) |>.resolve_left nofun
    have whole : front ++ link :: next :: others = (front ++ link :: between) ++ [last] := by
      rw [same, List.concat_eq_append, List.append_assoc, List.cons_append]
    rw [whole, linkedLast] at resolved ⊢
    exact conditionLeft (chainRefused plus other (resolvedLeft resolved))

/- A binary operator concatenates or compares. -/
theorem operatorKnown {operator : String} (binary : operator ∈ binaryOperators) :
    operator = "+" ∨ ∃ c, Comparison.ofSymbol? operator = some c := by
  have each : binaryOperators.all
      (fun o => o == "+" || (Comparison.ofSymbol? o).isSome) = true := by decide
  have known := List.all_eq_true.mp each operator binary
  rwa [Bool.or_eq_true, beq_iff_eq, Option.isSome_iff_exists] at known

theorem Chain.operatorInside {chain : Chain} {link : Operator × Primary} (among : link ∈ chain.more) :
    link.1.val ∈ chain.tokens := by
  obtain ⟨before, after, same⟩ := List.append_of_mem among
  simp [Chain.tokens, linkTokens, same]

end Stepwise.Grammar

namespace Stepwise
open Grammar

/- The expressions of a text, among them the conditions of its steps, are chains of operands with
operators that concatenate or compare. Taken as a condition, a chain is decided in closed form. -/
theorem parseConditions {source : String} {ts : List Token} {p : Program}
    (tokenized : tokenize source = .ok ts) (read : parse ts = .ok p) :
    ∀ e ∈ p.expressions, ∃ chain : Chain, chain.tree = e ∧ chain.tokens <:+: beforeEnd ts ∧
      (∀ link ∈ chain.more, concatenates link = true ∨
        ∃ c, Comparison.ofSymbol? link.1.val.lexeme = some c) ∧
      (∀ links, (Chain.mk chain.first links).tree.render? = some (rendering chain.first links)) ∧
      ∀ t, Expr.Resolved t e → e.condition t = chain.verdict t := by
  intro e inside
  obtain ⟨chain, tree, part⟩ := (parseChained (tokenizeSpelled tokenized) read).2 e inside
  have known : ∀ link ∈ chain.more, concatenates link = true ∨
      ∃ c, Comparison.ofSymbol? link.1.val.lexeme = some c := by
    intro link among
    have written := writtenBeforeEnd tokenized _ (part.subset (Chain.operatorInside among))
    exact (operatorKnown (operatorSpelled written)).imp_left decide_eq_true
  refine ⟨chain, tree, part, known, linkedRendered chain.first, fun t resolved => ?_⟩
  rw [← tree] at resolved ⊢
  exact Chain.decided resolved known

/- The comparison is not the last operator, so it is not what decides. -/
def sumText : String := "workflow \"w\" \x7b step 1: if (a == \"b\" + \"c\") \x7b \x7d \x7d"

def sumTokens : List Token :=
  [⟨.keyword .workflow, "workflow", none, 1⟩, ⟨.string, "\"w\"", some "w", 1⟩,
    ⟨.mark .leftBrace, "\x7b", none, 1⟩, ⟨.keyword .step, "step", none, 1⟩,
    ⟨.number, "1", some "1", 1⟩, ⟨.mark .colon, ":", none, 1⟩, ⟨.keyword .ifWord, "if", none, 1⟩,
    ⟨.mark .leftParen, "(", none, 1⟩, ⟨.identifier, "a", none, 1⟩,
    ⟨.mark .equalEqual, "==", none, 1⟩, ⟨.string, "\"b\"", some "b", 1⟩,
    ⟨.mark .plus, "+", none, 1⟩, ⟨.string, "\"c\"", some "c", 1⟩,
    ⟨.mark .rightParen, ")", none, 1⟩, ⟨.mark .leftBrace, "\x7b", none, 1⟩,
    ⟨.mark .rightBrace, "\x7d", none, 1⟩, ⟨.mark .rightBrace, "\x7d", none, 1⟩, .endAt 1]

def sumCondition : Expr :=
  .binary (.binary (.name "a" (some 1)) "==" (.text "b" (some 1)) (some 1)) "+" (.text "c" (some 1))
    (some 1)

theorem sumTextDecided :
    ∃ ts p t, tokenize sumText = .ok ts ∧ parse ts = .ok p ∧ sumCondition ∈ p.expressions ∧
      Expr.Resolved t sumCondition ∧ ∃ chain : Chain, chain.tree = sumCondition ∧
        chain.tokens <:+: beforeEnd ts ∧
        chain.verdict t = .error (.unknownOperator "==" "a == \"b\"") := by
  have tokenized : tokenize sumText = .ok sumTokens := by cbv
  let p : Program := ⟨[], [⟨"w", [.ifOnly 1 sumCondition [] (some 1) (some 1)], some 1⟩], some 1⟩
  have read : parse sumTokens = .ok p := rfl
  have inside : sumCondition ∈ p.expressions := List.mem_singleton.mpr rfl
  have resolved : Expr.Resolved (Tables.empty.bind "a" "x") sumCondition :=
    ⟨by decide, by decide⟩
  obtain ⟨chain, tree, part, -, -, decided⟩ := parseConditions tokenized read sumCondition inside
  exact ⟨_, p, _, tokenized, read, inside, resolved, chain, tree, part,
    (decided _ resolved).symm⟩

end Stepwise
