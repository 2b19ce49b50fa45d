import Stepwise.Program.Assembly
import Stepwise.Proofs.Token.Relaid

/-! Lines take no part in reading. Tokens on other lines are read to the same program or to the same
fault, on other lines; so what a text is read to does not hang on its layout. -/
namespace Stepwise

section
variable (g : Nat → Nat)

def Expr.relined : Expr → Expr
  | .text value line => .text value (line.map g)
  | .number value line => .number value (line.map g)
  | .name word line => .name word (line.map g)
  | .binary left operator right line => .binary left.relined operator right.relined (line.map g)
  | .property object part line => .property object.relined part (line.map g)
  | .result step part line => .result step part (line.map g)
  | .absent => .absent

namespace Step

mutual

def relined : Step → Step
  | .command id name arguments line contentLine =>
      .command id name (arguments.map (Expr.relined g)) (line.map g) (contentLine.map g)
  | .ifOnly id condition body line contentLine =>
      .ifOnly id (condition.relined g) (relinedAll body) (line.map g) (contentLine.map g)
  | .ifElse id condition body other line contentLine =>
      .ifElse id (condition.relined g) (relinedAll body) (relinedAll other) (line.map g)
        (contentLine.map g)
  | .absent id line => .absent id (line.map g)

def relinedAll : List Step → List Step
  | [] => []
  | step :: rest => relined step :: relinedAll rest

end

theorem relinedAppend (a b : List Step) :
    relinedAll g (a ++ b) = relinedAll g a ++ relinedAll g b := by
  induction a with
  | nil => rfl
  | cons s rest ih => exact congrArg (s.relined g :: ·) ih

end Step

def Declaration.relined (d : Declaration) : Declaration :=
  ⟨d.keyword, d.name, d.value.relined g, d.line.map g⟩

def Workflow.relined (w : Workflow) : Workflow := ⟨w.name, Step.relinedAll g w.steps, w.line.map g⟩

/- The line of a program is no line of a token. -/
def Program.relined (p : Program) : Program :=
  ⟨p.declarations.map (Declaration.relined g), p.workflows.map (Workflow.relined g), p.line⟩

namespace Assembly

def Head.relined (h : Head) : Head := ⟨h.id, g h.line⟩

def Block.relined : Block → Block
  | .workflow name line steps => .workflow name (g line) (Step.relinedAll g steps)
  | .thenPart outer head condition ifLine steps =>
      .thenPart outer.relined (head.relined g) (condition.relined g) (g ifLine)
        (Step.relinedAll g steps)
  | .elsePart outer head condition ifLine body steps =>
      .elsePart outer.relined (head.relined g) (condition.relined g) (g ifLine)
        (Step.relinedAll g body) (Step.relinedAll g steps)

def Call.relined (c : Call) : Call := ⟨c.head.relined g, c.name, g c.line⟩

def Slot.relined : Slot → Slot
  | .value keyword name line => .value keyword name (g line)
  | .argument block call before =>
      .argument (block.relined g) (call.relined g) (before.map (Expr.relined g))
  | .condition block head line => .condition (block.relined g) (head.relined g) (g line)

def Joint.relined (j : Joint) : Joint := ⟨j.left.relined g, j.operator, g j.line⟩

def Phase.relined : Phase → Phase
  | .top => .top
  | .workflowName line => .workflowName (g line)
  | .workflowStart name line => .workflowStart name (g line)
  | .variableName keyword line => .variableName keyword (g line)
  | .variableEqual keyword name line => .variableEqual keyword name (g line)
  | .steps block => .steps (block.relined g)
  | .stepNumber block line => .stepNumber (block.relined g) (g line)
  | .stepColon block head => .stepColon (block.relined g) (head.relined g)
  | .stepContent block head => .stepContent (block.relined g) (head.relined g)
  | .commandRead block call => .commandRead (block.relined g) (call.relined g)
  | .argumentsStart block call => .argumentsStart (block.relined g) (call.relined g)
  | .argumentsEnd block call arguments =>
      .argumentsEnd (block.relined g) (call.relined g) (arguments.map (Expr.relined g))
  | .conditionStart block head line => .conditionStart (block.relined g) (head.relined g) (g line)
  | .conditionEnd block head line condition =>
      .conditionEnd (block.relined g) (head.relined g) (g line) (condition.relined g)
  | .thenStart block head line condition =>
      .thenStart (block.relined g) (head.relined g) (g line) (condition.relined g)
  | .thenRead block head line condition body =>
      .thenRead (block.relined g) (head.relined g) (g line) (condition.relined g)
        (Step.relinedAll g body)
  | .elseStart block head line condition body =>
      .elseStart (block.relined g) (head.relined g) (g line) (condition.relined g)
        (Step.relinedAll g body)
  | .operand slot joint => .operand (slot.relined g) (joint.map (Joint.relined g))
  | .nameRead slot joint name line =>
      .nameRead (slot.relined g) (joint.map (Joint.relined g)) name (g line)
  | .nameProperty slot joint name line =>
      .nameProperty (slot.relined g) (joint.map (Joint.relined g)) name (g line)
  | .referencedNumber slot joint line =>
      .referencedNumber (slot.relined g) (joint.map (Joint.relined g)) (g line)
  | .referenceRead slot joint id line =>
      .referenceRead (slot.relined g) (joint.map (Joint.relined g)) id (g line)
  | .referenceProperty slot joint id line =>
      .referenceProperty (slot.relined g) (joint.map (Joint.relined g)) id (g line)
  | .operandRead slot e => .operandRead (slot.relined g) (e.relined g)

def State.relined (s : State) : State :=
  ⟨s.declarations.map (Declaration.relined g), s.workflows.map (Workflow.relined g),
    s.phase.relined g⟩

theorem joinedRelined (j : Option Joint) (e : Expr) :
    (joined j e).relined g = joined (j.map (Joint.relined g)) (e.relined g) := by
  cases j <;> rfl

theorem Block.addRelined (b : Block) (s : Step) :
    (b.add s).relined g = (b.relined g).add (s.relined g) := by
  cases b <;> simp only [add, relined, Step.relinedAppend] <;> rfl

theorem Block.wantedEndRelined (b : Block) : (b.relined g).wantedEnd = b.wantedEnd := by
  cases b <;> rfl

namespace State

theorem fillRelined (s : State) (e : Expr) (slot : Slot) :
    (s.fill e slot).relined g = (s.relined g).fill (e.relined g) (slot.relined g) := by
  cases slot with
  | value keyword name line => simp [fill, relined, Declaration.relined, Phase.relined, Slot.relined]
  | argument block call before => simp [fill, relined, move, Phase.relined, Slot.relined]
  | condition block head line => rfl

theorem closeRelined (s : State) (b : Block) :
    (s.close b).relined g = (s.relined g).close (b.relined g) := by
  cases b with
  | workflow name line steps =>
    simp [close, relined, Workflow.relined, Phase.relined, Block.relined]
  | thenPart outer head condition ifLine steps => rfl
  | elsePart outer head condition ifLine body steps =>
    simp only [close, relined, move, Phase.relined, Block.addRelined]
    rfl

theorem settleRelined (s : State) : s.settle.relined g = (s.relined g).settle := by
  obtain ⟨declarations, workflows, phase⟩ := s
  cases phase with
  | commandRead | thenRead =>
    simp only [settle, relined, move, Phase.relined, Block.addRelined]
    rfl
  | nameRead | referenceRead =>
    simp only [settle, fillRelined, joinedRelined]
    rfl
  | operandRead slot e => exact fillRelined g _ e slot
  | _ => rfl

theorem extendRelined (s : State) (t : Token) :
    (s.relined g).extend? (t.relined g) = (s.extend? t).map (relined g) := by
  obtain ⟨kind, lexeme, literal, line⟩ := t
  obtain ⟨declarations, workflows, phase⟩ := s
  cases kind with
  | mark m =>
    cases phase with
    | nameRead slot joint | referenceRead slot joint => cases joint <;> cases m <;> rfl
    | _ => cases m <;> rfl
  | keyword word =>
    cases phase with
    | thenRead => cases word <;> rfl
    | _ => rfl
  | _ => cases phase <;> rfl

theorem operandTakenRelined (s : State) (slot : Slot) (joint : Option Joint) (t : Token) :
    (s.relined g).operand (slot.relined g) (joint.map (Joint.relined g)) (t.relined g) =
      (s.operand slot joint t).map (State.relined g) := by
  obtain ⟨kind, lexeme, literal, line⟩ := t
  cases kind with
  | string => simp [operand, Token.relined, Except.map, relined, move, Phase.relined, joinedRelined, Expr.relined]
  | number =>
    simp only [operand, Token.relined]
    cases Numeral.read? lexeme <;>
      simp [Except.map, relined, move, Phase.relined, joinedRelined, Expr.relined]
  | keyword word => cases word <;> rfl
  | _ => rfl

theorem eitherRelined {c : Prop} [Decidable c] {a b a' b' : Except ParseCause State}
    (left : a' = a.map (relined g)) (right : b' = b.map (relined g)) :
    (if c then a' else b') = (if c then a else b).map (relined g) := by
  split
  · exact left
  · exact right

theorem numberRelined {t : Token} {next next' : Int → State}
    (same : ∀ id, next' id = (next id).relined g) :
    (stepNumber (t.relined g) >>= fun id => return next' id) =
      (stepNumber t >>= fun id => return next id).map (relined g) := by
  change (stepNumber t >>= fun id => return next' id) = _
  cases stepNumber t with
  | error cause => rfl
  | ok id => exact congrArg Except.ok (same id)

theorem shiftRelined (s : State) (t : Token) :
    (s.relined g).shift (t.relined g) = (s.shift t).map (State.relined g) := by
  obtain ⟨declarations, workflows, phase⟩ := s
  cases phase with
  | top | stepContent =>
    obtain ⟨kind, lexeme, literal, line⟩ := t
    cases kind with
    | keyword word => cases word <;> rfl
    | _ => rfl
  | operand slot joint => exact operandTakenRelined g _ slot joint t
  | steps block =>
    exact eitherRelined g (congrArg Except.ok (closeRelined g _ block).symm) (eitherRelined g rfl rfl)
  | stepNumber block line => exact eitherRelined g (numberRelined g fun _ => rfl) rfl
  | referencedNumber slot joint line => exact eitherRelined g (numberRelined g fun _ => rfl) rfl
  | argumentsStart block call =>
    refine eitherRelined g ?_ (operandTakenRelined g _ (.argument block call []) none t)
    simp only [Except.map, relined, move, Phase.relined, Block.addRelined]
    rfl
  | argumentsEnd block call arguments =>
    refine eitherRelined g ?_ (eitherRelined g rfl rfl)
    simp only [Except.map, relined, move, Phase.relined, Block.addRelined]
    rfl
  | nameProperty | referenceProperty =>
    refine eitherRelined g ?_ rfl
    simp only [Except.map, relined, move, Phase.relined, joinedRelined]
    rfl
  | commandRead | thenRead | nameRead | referenceRead | operandRead => rfl
  | _ => exact eitherRelined g rfl rfl

theorem feedRelined (s : State) (t : Token) :
    (s.relined g).feed (t.relined g) = (s.feed t).map (relined g) := by
  unfold feed
  rw [extendRelined]
  cases s.extend? t with
  | some next => rfl
  | none =>
    dsimp only [Option.map_none]
    rw [← settleRelined, shiftRelined]

theorem missingRelined (s : State) : (s.relined g).missing? = s.missing? := by
  obtain ⟨declarations, workflows, phase⟩ := s
  cases phase with
  | steps block => exact congrArg some (block.wantedEndRelined g)
  | _ => rfl

theorem finishRelined (s : State) : (s.relined g).finish = s.finish.map (Program.relined g) := by
  unfold finish
  rw [← settleRelined, missingRelined]
  cases s.settle.missing? <;> rfl

end State
end Assembly

def ParseFault.relined (f : ParseFault) : ParseFault := { f with line := g f.line }

def relinedOutcome (outcome : Except ParseFault Program) : Except ParseFault Program :=
  (outcome.map (Program.relined g)).mapError (ParseFault.relined g)

open Assembly in
theorem runRelined (endLine : Nat) (s : State) (ts : List Token) :
    (run (g endLine) (s.relined g) (ts.map (Token.relined g))).outcome =
      relinedOutcome g (run endLine s ts).outcome := by
  induction ts generalizing s with
  | nil =>
    rw [List.map_nil, run, run, State.finishRelined]
    cases s.finish <;> rfl
  | cons t rest ih =>
    rw [List.map_cons, run, run, State.feedRelined]
    cases s.feed t with
    | ok next => exact ih next
    | error cause => cases cause <;> rfl

/- Tokens on other lines are read to the same, on these lines. -/
theorem parseRelined {ts : List Token} (some : ts ≠ []) :
    parse (ts.map (Token.relined g)) = relinedOutcome g (parse ts) := by
  have tokens : (ts.map (Token.relined g)).takeWhile (·.kind != .endOfInput) =
      (ts.takeWhile (·.kind != .endOfInput)).map (Token.relined g) := List.takeWhile_map
  have line : (Assembly.Input.ofTokens (ts.map (Token.relined g))).endLine =
      g (Assembly.Input.ofTokens ts).endLine := by
    unfold Assembly.Input.ofTokens
    dsimp only
    rw [List.find?_map, List.getLast?_map, List.getLast?_eq_getLast_of_ne_nil some]
    change ((ts.find? (·.kind = .endOfInput)).map (Token.relined g)).elim _ _ = _
    cases ts.find? (·.kind = .endOfInput) <;> rfl
  unfold parse Assembly.Input.read
  rw [line]
  change (Assembly.run _ (Assembly.start.relined g) _).outcome = _
  rw [← runRelined]
  exact congrArg (fun tokens => (Assembly.run _ _ tokens).outcome) tokens

end

/-! Lines that are changed twice. -/

section
variable (g h : Nat → Nat)

theorem Expr.relinedTwice (e : Expr) : (e.relined g).relined h = e.relined (h ∘ g) := by
  induction e with
  | binary left operator right line ihLeft ihRight =>
    simp only [relined, ihLeft, ihRight, Option.map_map]
  | property object part line ih => simp only [relined, ih, Option.map_map]
  | absent => rfl
  | _ => simp only [relined, Option.map_map]

theorem Expr.relinedAllTwice (es : List Expr) :
    (es.map (relined g)).map (relined h) = es.map (relined (h ∘ g)) := by
  rw [List.map_map]
  exact List.map_congr_left fun e _ => e.relinedTwice g h

namespace Step

mutual

theorem relinedTwice : (s : Step) → (s.relined g).relined h = s.relined (h ∘ g)
  | .command .. => by simp only [relined, Expr.relinedAllTwice, Option.map_map]
  | .ifOnly _ _ body .. => by
      simp only [relined, Expr.relinedTwice, relinedAllTwice body, Option.map_map]
  | .ifElse _ _ body other .. => by
      simp only [relined, Expr.relinedTwice, relinedAllTwice body, relinedAllTwice other,
        Option.map_map]
  | .absent .. => by simp only [relined, Option.map_map]

theorem relinedAllTwice : (steps : List Step) →
    relinedAll h (relinedAll g steps) = relinedAll (h ∘ g) steps
  | [] => rfl
  | s :: rest => by simp only [relinedAll, relinedTwice s, relinedAllTwice rest]

end

end Step

theorem Program.relinedTwice (p : Program) : (p.relined g).relined h = p.relined (h ∘ g) := by
  simp only [relined, List.map_map]
  congr 1
  · refine List.map_congr_left fun d _ => ?_
    simp only [Function.comp_apply, Declaration.relined, Expr.relinedTwice, Option.map_map]
  · refine List.map_congr_left fun w _ => ?_
    simp only [Function.comp_apply, Workflow.relined, Step.relinedAllTwice, Option.map_map]

end

/-! What differs in its lines at most is the same. -/

section
variable {g h : Nat → Nat}

namespace Expr

theorem bareRelined (g : Nat → Nat) (e : Expr) : (e.relined g).bare = e.bare := by
  induction e with
  | binary left operator right line ihLeft ihRight => simp only [relined, bare, ihLeft, ihRight]
  | property object part line ih => simp only [relined, bare, ih]
  | _ => rfl

theorem bareAlike {a b : Expr} (alike : a.relined g = b.relined h) : a.bare = b.bare := by
  rw [← bareRelined g a, alike, bareRelined]

theorem bareAllAlike {as bs : List Expr} (alike : as.map (relined g) = bs.map (relined h)) :
    as.map bare = bs.map bare := by
  have bared (g : Nat → Nat) (es : List Expr) : (es.map (relined g)).map bare = es.map bare := by
    rw [List.map_map]
    exact List.map_congr_left fun e _ => bareRelined g e
  rw [← bared g as, alike, bared h bs]

end Expr

namespace Step

mutual

theorem sameAlike : (a b : Step) → a.relined g = b.relined h → a.same b = true
  | .command .., b, alike => by
      cases b with
      | command =>
        simp only [relined, command.injEq] at alike
        simp [same, alike.1, alike.2.1, Expr.bareAllAlike alike.2.2.1]
      | _ => cases alike
  | .ifOnly _ _ body .., b, alike => by
      cases b with
      | ifOnly =>
        simp only [relined, ifOnly.injEq] at alike
        simp [same, alike.1, Expr.bareAlike alike.2.1, sameAllAlike body _ alike.2.2.1]
      | _ => cases alike
  | .ifElse _ _ body other .., b, alike => by
      cases b with
      | ifElse =>
        simp only [relined, ifElse.injEq] at alike
        simp [same, alike.1, Expr.bareAlike alike.2.1, sameAllAlike body _ alike.2.2.1,
          sameAllAlike other _ alike.2.2.2.1]
      | _ => cases alike
  | .absent .., b, alike => by
      cases b with
      | absent =>
        simp only [relined, absent.injEq] at alike
        simp [same, alike.1]
      | _ => cases alike

theorem sameAllAlike : (as bs : List Step) → relinedAll g as = relinedAll h bs →
    sameAll as bs = true
  | [], [], _ => rfl
  | a :: as, b :: bs, alike => by
      obtain ⟨first, others⟩ := List.cons.inj alike
      simp [sameAll, sameAlike a b first, sameAllAlike as bs others]
  | [], _ :: _, alike => by cases alike
  | _ :: _, [], alike => by cases alike

end

end Step

theorem Declaration.sameAlike {a b : Declaration} (alike : a.relined g = b.relined h) :
    a.same b = true := by
  simp only [relined, Declaration.mk.injEq] at alike
  simp [same, alike.1, alike.2.1, Expr.bareAlike alike.2.2.1]

theorem Workflow.sameAlike {a b : Workflow} (alike : a.relined g = b.relined h) :
    a.same b = true := by
  simp only [relined, Workflow.mk.injEq] at alike
  simp [same, alike.1, Step.sameAllAlike a.steps b.steps alike.2.1]

theorem pairsAlike {α β : Type} {f f' : α → β} {same : α → α → Bool} {as bs : List α}
    (each : ∀ a b, f a = f' b → same a b = true) (alike : as.map f = bs.map f') :
    as.length = bs.length ∧ (as.zip bs).all (fun pair => same pair.1 pair.2) = true := by
  induction as generalizing bs with
  | nil =>
    obtain rfl := List.map_eq_nil_iff.mp alike.symm
    exact ⟨rfl, rfl⟩
  | cons a as ih =>
    cases bs with
    | nil => cases alike
    | cons b bs =>
      obtain ⟨first, others⟩ := List.cons.inj alike
      obtain ⟨length, all⟩ := ih others
      exact ⟨congrArg Nat.succ length, by
        rw [List.zip_cons_cons, List.all_cons, each a b first, all]
        rfl⟩

theorem Program.sameAlike {p q : Program} (alike : p.relined g = q.relined h) :
    p.same q = true := by
  simp only [relined, Program.mk.injEq] at alike
  have declarations := pairsAlike (fun _ _ => Declaration.sameAlike) alike.1
  have workflows := pairsAlike (fun _ _ => Workflow.sameAlike) alike.2.1
  simp [same, declarations, workflows]

end

/- Two readings with the same outcome: programs that are the same but for their lines, or faults that
differ in the line at most. -/
inductive ReadAlike : Except ParseFault Program → Except ParseFault Program → Prop where
  | program {p q : Program} (same : p.same q = true) : ReadAlike (.ok p) (.ok q)
  | fault (f : ParseFault) (line : Nat) : ReadAlike (.error f) (.error { f with line })

theorem outcomesAlike {g : Nat → Nat} {a b : Except ParseFault Program}
    (alike : relinedOutcome g a = relinedOutcome g b) : ReadAlike a b := by
  cases a with
  | ok p =>
    cases b with
    | ok q => exact .program (Program.sameAlike (Except.ok.inj alike))
    | error f => cases alike
  | error f =>
    cases b with
    | ok q => cases alike
    | error f' =>
      obtain ⟨cause, found, line⟩ := f
      obtain ⟨cause', found', line'⟩ := f'
      have same := Except.error.inj alike
      simp only [ParseFault.relined, ParseFault.mk.injEq] at same
      obtain ⟨rfl, rfl, _⟩ := same
      exact .fault ⟨cause, found, line⟩ line'

/- Layout is without meaning: a text that writes out what is scanned from another, with layout of its
own between the lexemes, has the same tokens on other lines, and is read to the same program but for
its lines, or refused with the same fault but for its line. -/
theorem parseRelaid {source text : String} {ts : List Token} (scanned : tokenize source = .ok ts)
    (laid : Laid ts.dropLast text.toList) :
    ∃ again, tokenize text = .ok again ∧ again.map Token.kind = ts.map Token.kind ∧
      again.map Token.lexeme = ts.map Token.lexeme ∧
      again.map Token.literal = ts.map Token.literal ∧ ReadAlike (parse ts) (parse again) := by
  obtain ⟨again, rescanned, same⟩ := tokenizeRelaid scanned laid
  have every {γ : Type} (part : Token → γ)
      (steady : part ∘ Token.relined (fun _ => 0) = part) : again.map part = ts.map part := by
    rw [← steady, ← List.map_map, ← List.map_map, same]
  have ends {source : String} {ts : List Token} (h : tokenize source = .ok ts) : ts ≠ [] := by
    obtain ⟨each, last, rfl, _⟩ := tokenizeWritten h
    exact List.append_ne_nil_of_right_ne_nil each nofun
  refine ⟨again, rescanned, every Token.kind rfl, every Token.lexeme rfl, every Token.literal rfl,
    outcomesAlike (g := fun _ => 0) ?_⟩
  rw [← parseRelined _ (ends scanned), ← parseRelined _ (ends rescanned), same]

/- A string over two lines, a number, and a mark that is longer than another. -/
def crampedText : String := "let a='x\n'let b=a+1.5<=2"

def spreadText : String := "\tlet a\r\n= 'x\n'\nlet b = a\n+ 1.5\t<= 2 "

def crampedTokens : List Token :=
  [⟨.keyword .letWord, "let", none, 1⟩, ⟨.identifier, "a", none, 1⟩, ⟨.mark .equal, "=", none, 1⟩,
    ⟨.string, "'x\n'", some "x\n", 1⟩, ⟨.keyword .letWord, "let", none, 2⟩,
    ⟨.identifier, "b", none, 2⟩, ⟨.mark .equal, "=", none, 2⟩, ⟨.identifier, "a", none, 2⟩,
    ⟨.mark .plus, "+", none, 2⟩, ⟨.number, "1.5", some "1.5", 2⟩,
    ⟨.mark .lessEqual, "<=", none, 2⟩, ⟨.number, "2", some "2", 2⟩, .endAt 2]

theorem spreadTextRelaid :
    tokenize crampedText = .ok crampedTokens ∧ Laid crampedTokens.dropLast spreadText.toList ∧
      ∃ again, tokenize spreadText = .ok again ∧
        again.map Token.literal = crampedTokens.map Token.literal ∧
        ReadAlike (parse crampedTokens) (parse again) := by
  have scanned : tokenize crampedText = .ok crampedTokens := by cbv
  have written : spreadText.toList = '\t' :: ("let".toList ++ ' ' :: ("a".toList ++ '\r' :: '\n' ::
      ("=".toList ++ ' ' :: ("'x\n'".toList ++ '\n' :: ("let".toList ++ ' ' :: ("b".toList ++ ' ' ::
      ("=".toList ++ ' ' :: ("a".toList ++ '\n' :: ("+".toList ++ ' ' :: ("1.5".toList ++ '\t' ::
      ("<=".toList ++ ' ' :: ("2".toList ++ [' '])))))))))))) := by rfl
  have laid : Laid crampedTokens.dropLast spreadText.toList := by
    rw [written]
    repeat' first
      | exact .nothing
      | refine .layout (by decide) ?_
      | refine .token _ (by rintro _ ⟨⟩; rfl) ?_
  obtain ⟨again, rescanned, _, _, literals, alike⟩ := parseRelaid scanned laid
  exact ⟨scanned, laid, again, rescanned, literals, alike⟩

end Stepwise
