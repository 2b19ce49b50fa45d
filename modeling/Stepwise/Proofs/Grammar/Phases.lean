import Stepwise.Proofs.Grammar.Derivation

/-! What each phase of reading takes. A phase that may be left without a further token is left in
front of any token that does not continue it; every other phase requires tokens of one sort, or of
one of two sorts, and the input may end at top level only. -/
namespace Stepwise.Assembly
open Grammar (Leaf Operator CommandName DeclarationWord)

variable {p : Program} {ts : List Token} {s : State}

/- Taken from this state on, the tokens come to the program. -/
def Accepts (p : Program) : List Token → State → Prop
  | [], s => s.finish = .ok p
  | t :: rest, s => ∃ next, s.feed t = .ok next ∧ Accepts p rest next

theorem runAccepts {endLine : Nat} : (run endLine s ts).outcome = .ok p ↔ Accepts p ts s := by
  induction ts generalizing s with
  | nil =>
    unfold run Accepts
    cases s.finish with
    | ok q => simp
    | error wanted => simp
  | cons t rest ih =>
    unfold run Accepts
    cases s.feed t with
    | ok next => simp [ih]
    | error cause => cases cause <;> simp

/- Phases that may be left without a further token. -/
def Phase.isOpen : Phase → Bool
  | .commandRead .. | .thenRead .. | .nameRead .. | .referenceRead .. | .operandRead .. => true
  | _ => false

namespace State

theorem operandOpen {found : Slot × Expr} (h : s.operand? = some found) : s.phase.isOpen = true := by
  unfold operand? at h
  split at h
  · rename_i phase; rw [phase]; rfl
  · rename_i phase; rw [phase]; rfl
  · rename_i phase; rw [phase]; rfl
  · cases h

theorem extendOpen {t : Token} {next : State} (h : s.extend? t = some next) :
    s.phase.isOpen = true := by
  unfold extend? at h
  split at h
  · rename_i phase _; rw [phase]; rfl
  · rename_i phase _; rw [phase]; rfl
  · rename_i phase _; rw [phase]; rfl
  · rename_i phase _; rw [phase]; rfl
  · split at h
    · obtain ⟨found, operand, _⟩ := Option.map_eq_some_iff.mp h
      exact operandOpen operand
    · cases h
  · cases h

theorem extendClosed (h : s.phase.isOpen = false) (t : Token) : s.extend? t = none := by
  cases extended : s.extend? t with
  | none => rfl
  | some next =>
    rw [extendOpen extended] at h
    cases h

theorem settleClosed (h : s.phase.isOpen = false) : s.settle = s := by
  unfold settle
  split
  case h_6 => rfl
  all_goals
    rename_i phase
    rw [phase] at h
    cases h

theorem fillClosed (e : Expr) (slot : Slot) : (s.fill e slot).phase.isOpen = false := by
  cases slot <;> rfl

theorem settleIsClosed (s : State) : s.settle.phase.isOpen = false := by
  obtain ⟨declarations, workflows, phase⟩ := s
  cases phase <;> first | rfl | exact fillClosed _ _

theorem fillRefuses {t : Token} {m : Mark} (kind : t.kind = .mark m) (h : m = .dot ∨ m.joins = true)
    (e : Expr) (slot : Slot) : ∃ cause, (s.fill e slot).shift t = .error cause := by
  have right : m ≠ .rightParen := by
    rintro rfl
    rcases h with h | h <;> cases h
  have comma : m ≠ .comma := by
    rintro rfl
    rcases h with h | h <;> cases h
  cases slot with
  | value => exact ⟨.unexpected .topLevel, by simp only [fill, shift, kind]⟩
  | argument => exact ⟨.unexpected .argumentsEnd, by simp [fill, shift, move, kind, right, comma]⟩
  | condition => exact ⟨.unexpected .conditionEnd, by simp [fill, shift, move, kind, right]⟩

theorem settleFill {found : Slot × Expr} (h : s.operand? = some found) :
    s.settle = s.fill found.2 found.1 := by
  unfold operand? at h
  unfold settle
  split at h <;> cases h <;> rename_i phase <;> rw [phase]

/- A token that continues an open phase is none that could follow it. -/
theorem extendRefused {t : Token} {next : State} (h : s.extend? t = some next) :
    ∃ cause, s.settle.shift t = .error cause := by
  unfold extend? at h
  split at h
  · rename_i phase kind
    exact ⟨.unexpected .step, by simp [settle, shift, move, phase, kind]⟩
  · rename_i phase kind
    exact ⟨.unexpected .step, by simp [settle, shift, move, phase, kind]⟩
  · rename_i phase kind
    simp only [settle, phase]
    exact fillRefuses kind (.inl rfl) _ _
  · rename_i phase kind
    simp only [settle, phase]
    exact fillRefuses kind (.inl rfl) _ _
  · rename_i m kind _ _ _
    split at h
    · rename_i joins
      obtain ⟨found, operand, _⟩ := Option.map_eq_some_iff.mp h
      rw [settleFill operand]
      exact fillRefuses kind (.inr joins) _ _
    · cases h
  · cases h

theorem feedClosed (h : s.phase.isOpen = false) (t : Token) : s.feed t = s.shift t := by
  unfold feed
  rw [extendClosed h, settleClosed h]

theorem finishSettled (s : State) : s.settle.finish = s.finish := by
  unfold finish
  rw [settleClosed s.settleIsClosed]

theorem feedExtended {t : Token} {next : State} (h : s.extend? t = some next) :
    s.feed t = .ok next := by
  unfold feed
  rw [h]

theorem feedSettled {t : Token} (h : s.extend? t = none) : s.feed t = s.settle.feed t := by
  rw [feedClosed s.settleIsClosed]
  unfold feed
  rw [h]

end State

theorem acceptsSettled (h : Accepts p ts s.settle) : Accepts p ts s := by
  cases ts with
  | nil => exact s.finishSettled.symm.trans h
  | cons t rest =>
    obtain ⟨next, fed, accepted⟩ := h
    refine ⟨next, ?_, accepted⟩
    cases extended : s.extend? t with
    | none => exact (State.feedSettled extended).trans fed
    | some other =>
      obtain ⟨cause, refused⟩ := State.extendRefused extended
      rw [State.feedClosed s.settleIsClosed, refused] at fed
      cases fed

theorem acceptsOpen : Accepts p ts s ↔
    (∃ t rest next, ts = t :: rest ∧ s.extend? t = some next ∧ Accepts p rest next) ∨
    Accepts p ts s.settle := by
  constructor
  · intro h
    cases ts with
    | nil => exact .inr (s.finishSettled.trans h)
    | cons t rest =>
      obtain ⟨next, fed, accepted⟩ := h
      cases extended : s.extend? t with
      | none => exact .inr ⟨next, (State.feedSettled extended).symm.trans fed, accepted⟩
      | some other =>
        rw [State.feedExtended extended] at fed
        cases fed
        exact .inl ⟨t, rest, next, rfl, extended, accepted⟩
  · intro given
    rcases given with ⟨t, rest, next, rfl, extended, accepted⟩ | h
    · exact ⟨next, State.feedExtended extended, accepted⟩
    · exact acceptsSettled h

theorem acceptsClosed (closed : s.phase.isOpen = false) (unfinished : s.missing? ≠ none) :
    Accepts p ts s ↔ ∃ t rest next, ts = t :: rest ∧ s.shift t = .ok next ∧ Accepts p rest next := by
  constructor
  · intro h
    cases ts with
    | nil =>
      unfold Accepts State.finish at h
      rw [State.settleClosed closed] at h
      cases missing : s.missing? with
      | none => exact absurd missing unfinished
      | some wanted =>
        rw [missing] at h
        cases h
    | cons t rest =>
      obtain ⟨next, fed, accepted⟩ := h
      exact ⟨t, rest, next, rfl, (State.feedClosed closed t).symm.trans fed, accepted⟩
  · intro given
    obtain ⟨t, rest, next, rfl, shifted, accepted⟩ := given
    exact ⟨next, (State.feedClosed closed t).trans shifted, accepted⟩

/- A phase that requires a token of one kind, and takes the one that comes next. -/
theorem acceptsLeaf {kind : TokenKind} {next : Leaf kind → State} {cause : ParseCause}
    (closed : s.phase.isOpen = false) (unfinished : s.missing? ≠ none)
    (takes : ∀ a : Leaf kind, a.val ∈ ts.head? → s.shift a.val = .ok (next a))
    (refuses : ∀ t, t.kind ≠ kind → s.shift t = .error cause) :
    Accepts p ts s ↔ ∃ (a : Leaf kind) (rest : List Token), ts = a.val :: rest ∧
      Accepts p rest (next a) := by
  rw [acceptsClosed closed unfinished]
  constructor
  · intro given
    obtain ⟨t, rest, n, rfl, shifted, accepted⟩ := given
    by_cases same : t.kind = kind
    · rw [takes ⟨t, same⟩ rfl] at shifted
      cases shifted
      exact ⟨⟨t, same⟩, rest, rfl, accepted⟩
    · rw [refuses t same] at shifted
      cases shifted
  · intro given
    obtain ⟨a, rest, rfl, accepted⟩ := given
    exact ⟨a.val, rest, next a, rfl, takes a rfl, accepted⟩

/- A phase that requires a token of one of two kinds. -/
theorem acceptsEither {kind other : TokenKind} {next : Leaf kind → State}
    {further : Leaf other → State} {cause : ParseCause}
    (closed : s.phase.isOpen = false) (unfinished : s.missing? ≠ none)
    (takes : ∀ a : Leaf kind, s.shift a.val = .ok (next a))
    (takesOther : ∀ a : Leaf other, s.shift a.val = .ok (further a))
    (refuses : ∀ t, t.kind ≠ kind → t.kind ≠ other → s.shift t = .error cause) :
    Accepts p ts s ↔
      (∃ (a : Leaf kind) (rest : List Token), ts = a.val :: rest ∧ Accepts p rest (next a)) ∨
      ∃ (a : Leaf other) (rest : List Token), ts = a.val :: rest ∧ Accepts p rest (further a) := by
  rw [acceptsClosed closed unfinished]
  constructor
  · intro given
    obtain ⟨t, rest, n, rfl, shifted, accepted⟩ := given
    by_cases same : t.kind = kind
    · rw [takes ⟨t, same⟩] at shifted
      cases shifted
      exact .inl ⟨⟨t, same⟩, rest, rfl, accepted⟩
    · by_cases second : t.kind = other
      · rw [takesOther ⟨t, second⟩] at shifted
        cases shifted
        exact .inr ⟨⟨t, second⟩, rest, rfl, accepted⟩
      · rw [refuses t same second] at shifted
        cases shifted
  · intro given
    rcases given with ⟨a, rest, rfl, accepted⟩ | ⟨a, rest, rfl, accepted⟩
    · exact ⟨a.val, rest, next a, rfl, takes a, accepted⟩
    · exact ⟨a.val, rest, further a, rfl, takesOther a, accepted⟩

section
variable {block : Block} {head : Head} {line : Nat} {name : String} {condition : Expr}
  {body : List Step} {slot : Slot} {joint : Option Joint}

theorem acceptsWorkflowName : Accepts p ts (s.move (.workflowName line)) ↔
    ∃ (a : Leaf .string) (rest : List Token), ts = a.val :: rest ∧
      Accepts p rest (s.move (.workflowStart (Grammar.textBody a) line)) :=
  acceptsLeaf rfl nofun (fun a _ => if_pos a.2) fun _ other => if_neg other

theorem acceptsWorkflowStart : Accepts p ts (s.move (.workflowStart name line)) ↔
    ∃ (a : Leaf (.mark .leftBrace)) (rest : List Token), ts = a.val :: rest ∧
      Accepts p rest (s.move (.steps (.workflow name line []))) :=
  acceptsLeaf rfl nofun (fun a _ => if_pos a.2) fun _ other => if_neg other

theorem acceptsVariableName {word : Keyword} : Accepts p ts (s.move (.variableName word line)) ↔
    ∃ (a : Leaf .identifier) (rest : List Token), ts = a.val :: rest ∧
      Accepts p rest (s.move (.variableEqual word a.val.lexeme line)) :=
  acceptsLeaf rfl nofun (fun a _ => if_pos a.2) fun _ other => if_neg other

theorem acceptsVariableEqual {word : Keyword} :
    Accepts p ts (s.move (.variableEqual word name line)) ↔
    ∃ (a : Leaf (.mark .equal)) (rest : List Token), ts = a.val :: rest ∧
      Accepts p rest (s.move (.operand (.value word name line) none)) :=
  acceptsLeaf rfl nofun (fun a _ => if_pos a.2) fun _ other => if_neg other

theorem acceptsSteps : Accepts p ts (s.move (.steps block)) ↔
    (∃ (a : Leaf (.mark .rightBrace)) (rest : List Token), ts = a.val :: rest ∧
      Accepts p rest (s.close block)) ∨
    ∃ (a : Leaf (.keyword .step)) (rest : List Token), ts = a.val :: rest ∧
      Accepts p rest (s.move (.stepNumber block a.val.line)) := by
  have closing : (s.move (.steps block)).close block = s.close block := by cases block <;> rfl
  rw [← closing]
  exact acceptsEither rfl nofun (fun a => if_pos a.2)
    (fun a => (if_neg (by rw [a.2]; nofun)).trans (if_pos a.2))
    fun _ other second => (if_neg other).trans (if_neg second)

theorem acceptsStepColon : Accepts p ts (s.move (.stepColon block head)) ↔
    ∃ (a : Leaf (.mark .colon)) (rest : List Token), ts = a.val :: rest ∧
      Accepts p rest (s.move (.stepContent block head)) :=
  acceptsLeaf rfl nofun (fun a _ => if_pos a.2) fun _ other => if_neg other

theorem acceptsArgumentsEnd {call : Call} {arguments : List Expr} :
    Accepts p ts (s.move (.argumentsEnd block call arguments)) ↔
    (∃ (a : Leaf (.mark .rightParen)) (rest : List Token), ts = a.val :: rest ∧
      Accepts p rest (s.move (.steps (block.add (call.step arguments))))) ∨
    ∃ (a : Leaf (.mark .comma)) (rest : List Token), ts = a.val :: rest ∧
      Accepts p rest (s.move (.operand (.argument block call arguments) none)) :=
  acceptsEither rfl nofun (fun a => if_pos a.2)
    (fun a => (if_neg (by rw [a.2]; nofun)).trans (if_pos a.2))
    fun _ other second => (if_neg other).trans (if_neg second)

theorem acceptsConditionStart : Accepts p ts (s.move (.conditionStart block head line)) ↔
    ∃ (a : Leaf (.mark .leftParen)) (rest : List Token), ts = a.val :: rest ∧
      Accepts p rest (s.move (.operand (.condition block head line) none)) :=
  acceptsLeaf rfl nofun (fun a _ => if_pos a.2) fun _ other => if_neg other

theorem acceptsConditionEnd : Accepts p ts (s.move (.conditionEnd block head line condition)) ↔
    ∃ (a : Leaf (.mark .rightParen)) (rest : List Token), ts = a.val :: rest ∧
      Accepts p rest (s.move (.thenStart block head line condition)) :=
  acceptsLeaf rfl nofun (fun a _ => if_pos a.2) fun _ other => if_neg other

theorem acceptsThenStart : Accepts p ts (s.move (.thenStart block head line condition)) ↔
    ∃ (a : Leaf (.mark .leftBrace)) (rest : List Token), ts = a.val :: rest ∧
      Accepts p rest (s.move (.steps (.thenPart block head condition line []))) :=
  acceptsLeaf rfl nofun (fun a _ => if_pos a.2) fun _ other => if_neg other

theorem acceptsElseStart : Accepts p ts (s.move (.elseStart block head line condition body)) ↔
    ∃ (a : Leaf (.mark .leftBrace)) (rest : List Token), ts = a.val :: rest ∧
      Accepts p rest (s.move (.steps (.elsePart block head condition line body []))) :=
  acceptsLeaf rfl nofun (fun a _ => if_pos a.2) fun _ other => if_neg other

theorem acceptsNameProperty : Accepts p ts (s.move (.nameProperty slot joint name line)) ↔
    ∃ (a : Leaf .identifier) (rest : List Token), ts = a.val :: rest ∧
      Accepts p rest (s.move (.operandRead slot
        (joined joint (.property (.name name (some line)) a.val.lexeme (some line))))) :=
  acceptsLeaf rfl nofun (fun a _ => if_pos a.2) fun _ other => if_neg other

theorem acceptsReferenceProperty {id : Int} :
    Accepts p ts (s.move (.referenceProperty slot joint id line)) ↔
    ∃ (a : Leaf .identifier) (rest : List Token), ts = a.val :: rest ∧
      Accepts p rest (s.move (.operandRead slot
        (joined joint (.result id (some a.val.lexeme) (some line))))) :=
  acceptsLeaf rfl nofun (fun a _ => if_pos a.2) fun _ other => if_neg other

/- The number tokens that may come next count as step numbers. -/
def NumberNext (ts : List Token) : Prop :=
  ∀ a : Leaf .number, a.val ∈ ts.head? → State.stepNumber a.val = .ok (Grammar.stepId a)

theorem acceptsStepNumber (counts : NumberNext ts) :
    Accepts p ts (s.move (.stepNumber block line)) ↔
    ∃ (a : Leaf .number) (rest : List Token), ts = a.val :: rest ∧
      Accepts p rest (s.move (.stepColon block ⟨Grammar.stepId a, line⟩)) := by
  refine acceptsLeaf rfl nofun (fun a first => ?_) fun _ other => if_neg other
  simp only [State.shift, State.move, if_pos a.2, counts a first]
  rfl

theorem acceptsReferencedNumber (counts : NumberNext ts) :
    Accepts p ts (s.move (.referencedNumber slot joint line)) ↔
    ∃ (a : Leaf .number) (rest : List Token), ts = a.val :: rest ∧
      Accepts p rest (s.move (.referenceRead slot joint (Grammar.stepId a) line)) := by
  refine acceptsLeaf rfl nofun (fun a first => ?_) fun _ other => if_neg other
  simp only [State.shift, State.move, if_pos a.2, counts a first]
  rfl

theorem acceptsStepContent : Accepts p ts (s.move (.stepContent block head)) ↔
    (∃ (a : CommandName) (rest : List Token), ts = a.val :: rest ∧
      Accepts p rest (s.move (.commandRead block ⟨head, a.val.lexeme, a.val.line⟩))) ∨
    ∃ (a : Leaf (.keyword .ifWord)) (rest : List Token), ts = a.val :: rest ∧
      Accepts p rest (s.move (.conditionStart block head a.val.line)) := by
  rw [acceptsClosed (s := s.move (.stepContent block head)) rfl nofun]
  constructor
  · intro given
    obtain ⟨t, rest, n, rfl, shifted, accepted⟩ := given
    simp only [State.shift, State.move] at shifted
    split at shifted
    · rename_i kind
      cases shifted
      exact .inl ⟨⟨t, .inl kind⟩, rest, rfl, accepted⟩
    · rename_i kind
      cases shifted
      exact .inr ⟨⟨t, kind⟩, rest, rfl, accepted⟩
    · rename_i w _ kind
      split at shifted
      · rename_i names
        cases shifted
        exact .inl ⟨⟨t, .inr ⟨w, kind, names⟩⟩, rest, rfl, accepted⟩
      · cases shifted
    · cases shifted
  · intro given
    rcases given with ⟨⟨t, name⟩, rest, rfl, accepted⟩ | ⟨a, rest, rfl, accepted⟩
    · refine ⟨t, rest, _, rfl, ?_, accepted⟩
      rcases name with kind | ⟨w, kind, names⟩
      · simp only [State.shift, State.move, kind]
      · cases w <;> simp [State.shift, State.move, kind, Keyword.namesCommand] at names ⊢
    · refine ⟨a.val, rest, _, rfl, ?_, accepted⟩
      simp only [State.shift, State.move, a.2]

/- The number tokens are spelled as numbers, so that an operand among them has a value. -/
theorem numberRead (spelled : NumbersSpelled ts) (a : Leaf .number) (inside : a.val ∈ ts) :
    Numeral.read? a.val.lexeme =
      some (Binary64.ofDecimal (Numeral.spelled a.val.lexeme.toList)) := by
  have read := Numeral.readSpelled (spelled a.val inside a.2)
  rw [String.ofList_toList] at read
  exact read

theorem acceptsOperand (spelled : NumbersSpelled ts) : Accepts p ts (s.move (.operand slot joint)) ↔
    (∃ (a : Leaf .string) (rest : List Token), ts = a.val :: rest ∧
      Accepts p rest (s.move (.operandRead slot
        (joined joint (.text (Grammar.textBody a) (some a.val.line)))))) ∨
    (∃ (a : Leaf .number) (rest : List Token), ts = a.val :: rest ∧
      Accepts p rest (s.move (.operandRead slot (joined joint (.number
        (Binary64.ofDecimal (Numeral.spelled a.val.lexeme.toList)) (some a.val.line)))))) ∨
    (∃ (a : Leaf .identifier) (rest : List Token), ts = a.val :: rest ∧
      Accepts p rest (s.move (.nameRead slot joint a.val.lexeme a.val.line))) ∨
    ∃ (a : Leaf (.keyword .step)) (rest : List Token), ts = a.val :: rest ∧
      Accepts p rest (s.move (.referencedNumber slot joint a.val.line)) := by
  rw [acceptsClosed (s := s.move (.operand slot joint)) rfl nofun]
  constructor
  · intro given
    obtain ⟨t, rest, n, rfl, shifted, accepted⟩ := given
    simp only [State.shift, State.operand, State.move] at shifted
    split at shifted
    · rename_i kind
      cases shifted
      exact .inl ⟨⟨t, kind⟩, rest, rfl, accepted⟩
    · rename_i kind
      rw [numberRead spelled ⟨t, kind⟩ List.mem_cons_self] at shifted
      cases shifted
      exact .inr (.inl ⟨⟨t, kind⟩, rest, rfl, accepted⟩)
    · rename_i kind
      cases shifted
      exact .inr (.inr (.inl ⟨⟨t, kind⟩, rest, rfl, accepted⟩))
    · rename_i kind
      cases shifted
      exact .inr (.inr (.inr ⟨⟨t, kind⟩, rest, rfl, accepted⟩))
    · cases shifted
  · intro given
    rcases given with ⟨a, rest, rfl, accepted⟩ | ⟨a, rest, rfl, accepted⟩ |
      ⟨a, rest, rfl, accepted⟩ | ⟨a, rest, rfl, accepted⟩
    · refine ⟨a.val, rest, _, rfl, ?_, accepted⟩
      simp only [State.shift, State.operand, State.move, a.2]
      rfl
    · refine ⟨a.val, rest, _, rfl, ?_, accepted⟩
      simp only [State.shift, State.operand, State.move, a.2]
      rw [numberRead spelled a List.mem_cons_self]
    · refine ⟨a.val, rest, _, rfl, ?_, accepted⟩
      simp only [State.shift, State.operand, State.move, a.2]
    · refine ⟨a.val, rest, _, rfl, ?_, accepted⟩
      simp only [State.shift, State.operand, State.move, a.2]

theorem acceptsArgumentsStart {call : Call} : Accepts p ts (s.move (.argumentsStart block call)) ↔
    (∃ (a : Leaf (.mark .rightParen)) (rest : List Token), ts = a.val :: rest ∧
      Accepts p rest (s.move (.steps (block.add (call.step []))))) ∨
    Accepts p ts (s.move (.operand (.argument block call []) none)) := by
  have apart : ∀ t : Token, t.kind = .mark .rightParen →
      (s.move (.operand (.argument block call []) none)).shift t = .error (.unexpected .operand) := by
    intro t kind
    simp only [State.shift, State.operand, State.move, kind]
  rw [acceptsClosed (s := s.move (.argumentsStart block call)) rfl nofun,
    acceptsClosed (s := s.move (.operand (.argument block call []) none)) rfl nofun]
  constructor
  · intro given
    obtain ⟨t, rest, n, rfl, shifted, accepted⟩ := given
    by_cases kind : t.kind = .mark .rightParen
    · simp only [State.shift, State.move, if_pos kind] at shifted
      cases shifted
      exact .inl ⟨⟨t, kind⟩, rest, rfl, accepted⟩
    · simp only [State.shift, State.move, if_neg kind] at shifted
      exact .inr ⟨t, rest, n, rfl, shifted, accepted⟩
  · intro given
    rcases given with ⟨a, rest, rfl, accepted⟩ | ⟨t, rest, n, rfl, shifted, accepted⟩
    · exact ⟨a.val, rest, _, rfl, if_pos a.2, accepted⟩
    · refine ⟨t, rest, n, rfl, ?_, accepted⟩
      by_cases kind : t.kind = .mark .rightParen
      · rw [apart t kind] at shifted
        cases shifted
      · exact (if_neg kind).trans shifted

theorem acceptsTop : Accepts p ts (s.move .top) ↔
    (ts = [] ∧ p = ⟨s.declarations, s.workflows, some 1⟩) ∨
    (∃ (a : DeclarationWord) (w : Keyword) (rest : List Token), ts = a.val :: rest ∧
      a.val.kind = .keyword w ∧ Accepts p rest (s.move (.variableName w a.val.line))) ∨
    ∃ (a : Leaf (.keyword .workflow)) (rest : List Token), ts = a.val :: rest ∧
      Accepts p rest (s.move (.workflowName a.val.line)) := by
  constructor
  · intro h
    cases ts with
    | nil =>
      cases h
      exact .inl ⟨rfl, rfl⟩
    | cons t rest =>
      obtain ⟨next, fed, accepted⟩ := h
      rw [State.feedClosed rfl] at fed
      simp only [State.shift, State.move] at fed
      split at fed
      · rename_i kind
        cases fed
        exact .inr (.inr ⟨⟨t, kind⟩, rest, rfl, accepted⟩)
      · rename_i w _ kind
        split at fed
        · rename_i declares
          cases fed
          exact .inr (.inl ⟨⟨t, w, kind, declares⟩, w, rest, rfl, kind, accepted⟩)
        · cases fed
      · cases fed
  · intro given
    rcases given with ⟨rfl, rfl⟩ | ⟨⟨t, v, found, declares⟩, w, rest, rfl, kind, accepted⟩ |
      ⟨a, rest, rfl, accepted⟩
    · exact Eq.refl _
    · refine ⟨_, ?_, accepted⟩
      cases found.symm.trans kind
      rw [State.feedClosed rfl]
      cases v <;> simp [State.shift, State.move, found, Keyword.declares] at declares ⊢
    · refine ⟨_, ?_, accepted⟩
      rw [State.feedClosed rfl]
      simp only [State.shift, State.move, a.2]

/- A phase that tokens of one kind continue, and that takes all others as a second phase does. -/
theorem acceptsContinued {kind : TokenKind} {next u : State} (settles : s.settle = u.settle)
    (goes : ∀ t, s.extend? t = if t.kind = kind then some next else u.extend? t)
    (refuses : ∀ t, t.kind = kind → u.extend? t = none) :
    Accepts p ts s ↔
      (∃ (a : Leaf kind) (rest : List Token), ts = a.val :: rest ∧ Accepts p rest next) ∨
      Accepts p ts u := by
  rw [acceptsOpen, acceptsOpen (s := u), settles, ← or_assoc]
  refine or_congr_left ⟨?_, ?_⟩
  · intro given
    obtain ⟨t, rest, n, rfl, extended, accepted⟩ := given
    rw [goes] at extended
    split at extended
    · rename_i same
      cases extended
      exact .inl ⟨⟨t, same⟩, rest, rfl, accepted⟩
    · exact .inr ⟨t, rest, n, rfl, extended, accepted⟩
  · intro given
    rcases given with ⟨a, rest, rfl, accepted⟩ | ⟨t, rest, n, rfl, extended, accepted⟩
    · exact ⟨a.val, rest, next, rfl, (goes a.val).trans (if_pos a.2), accepted⟩
    · refine ⟨t, rest, n, rfl, ?_, accepted⟩
      by_cases same : t.kind = kind
      · rw [refuses t same] at extended
        cases extended
      · exact (goes t).trans ((if_neg same).trans extended)

theorem extendCommand {call : Call} (t : Token) : (s.move (.commandRead block call)).extend? t =
    if t.kind = .mark .leftParen then some (s.move (.argumentsStart block call))
    else (s.move (.steps (block.add (call.step [])))).extend? t := by
  obtain ⟨kind, lexeme, literal, line⟩ := t
  cases kind with
  | keyword w => cases w <;> rfl
  | mark m => cases m <;> rfl
  | string | number | identifier | endOfInput => rfl

theorem acceptsCommandRead {call : Call} : Accepts p ts (s.move (.commandRead block call)) ↔
    (∃ (a : Leaf (.mark .leftParen)) (rest : List Token), ts = a.val :: rest ∧
      Accepts p rest (s.move (.argumentsStart block call))) ∨
    Accepts p ts (s.move (.steps (block.add (call.step [])))) :=
  acceptsContinued (s := s.move (.commandRead block call)) rfl extendCommand
    fun t _ => State.extendClosed rfl t

theorem extendBody (t : Token) : (s.move (.thenRead block head line condition body)).extend? t =
    if t.kind = .keyword .elseWord then some (s.move (.elseStart block head line condition body))
    else (s.move (.steps (block.add
      (.ifOnly head.id condition body (some head.line) (some line))))).extend? t := by
  obtain ⟨kind, lexeme, literal, line⟩ := t
  cases kind with
  | keyword w => cases w <;> rfl
  | mark m => cases m <;> rfl
  | string | number | identifier | endOfInput => rfl

theorem acceptsThenRead : Accepts p ts (s.move (.thenRead block head line condition body)) ↔
    (∃ (a : Leaf (.keyword .elseWord)) (rest : List Token), ts = a.val :: rest ∧
      Accepts p rest (s.move (.elseStart block head line condition body))) ∨
    Accepts p ts (s.move (.steps (block.add
      (.ifOnly head.id condition body (some head.line) (some line))))) :=
  acceptsContinued (s := s.move (.thenRead block head line condition body)) rfl extendBody
    fun t _ => State.extendClosed rfl t

/- An operator behind an operand that is complete. -/
theorem extendOperand {e : Expr} (t : Token) : (s.move (.operandRead slot e)).extend? t =
    match t.kind with
    | .mark m => if m.joins then some (s.move (.operand slot (some ⟨e, t.lexeme, t.line⟩))) else none
    | _ => none := by
  obtain ⟨kind, lexeme, literal, line⟩ := t
  cases kind with
  | keyword w => cases w <;> rfl
  | mark m => cases m <;> rfl
  | string | number | identifier | endOfInput => rfl

theorem acceptsOperandRead {e : Expr} : Accepts p ts (s.move (.operandRead slot e)) ↔
    (∃ (a : Operator) (rest : List Token), ts = a.val :: rest ∧
      Accepts p rest (s.move (.operand slot (some ⟨e, a.val.lexeme, a.val.line⟩)))) ∨
    Accepts p ts (s.fill e slot) := by
  have filled : (s.move (.operandRead slot e)).settle = s.fill e slot := by cases slot <;> rfl
  rw [acceptsOpen, filled]
  refine or_congr_left ⟨?_, ?_⟩
  · intro given
    obtain ⟨t, rest, n, rfl, extended, accepted⟩ := given
    rw [extendOperand] at extended
    split at extended
    · rename_i m kind
      split at extended
      · rename_i joins
        cases extended
        exact ⟨⟨t, m, kind, joins⟩, rest, rfl, accepted⟩
      · cases extended
    · cases extended
  · intro given
    obtain ⟨⟨t, m, kind, joins⟩, rest, rfl, accepted⟩ := given
    refine ⟨t, rest, _, rfl, ?_, accepted⟩
    rw [extendOperand]
    simp only [kind, joins, if_true]

theorem extendName (t : Token) : (s.move (.nameRead slot joint name line)).extend? t =
    if t.kind = .mark .dot then some (s.move (.nameProperty slot joint name line))
    else (s.move (.operandRead slot (joined joint (.name name (some line))))).extend? t := by
  obtain ⟨kind, lexeme, literal, line⟩ := t
  cases kind with
  | keyword w => cases w <;> rfl
  | mark m => cases m <;> rfl
  | string | number | identifier | endOfInput => rfl

theorem extendReference {id : Int} (t : Token) :
    (s.move (.referenceRead slot joint id line)).extend? t =
    if t.kind = .mark .dot then some (s.move (.referenceProperty slot joint id line))
    else (s.move (.operandRead slot (joined joint (.result id none (some line))))).extend? t := by
  obtain ⟨kind, lexeme, literal, line⟩ := t
  cases kind with
  | keyword w => cases w <;> rfl
  | mark m => cases m <;> rfl
  | string | number | identifier | endOfInput => rfl

theorem extendDot {e : Expr} {t : Token} (dot : t.kind = .mark .dot) :
    (s.move (.operandRead slot e)).extend? t = none := by
  rw [extendOperand, dot]
  rfl

theorem acceptsNameRead : Accepts p ts (s.move (.nameRead slot joint name line)) ↔
    (∃ (a : Leaf (.mark .dot)) (rest : List Token), ts = a.val :: rest ∧
      Accepts p rest (s.move (.nameProperty slot joint name line))) ∨
    Accepts p ts (s.move (.operandRead slot (joined joint (.name name (some line))))) :=
  acceptsContinued (s := s.move (.nameRead slot joint name line)) rfl extendName fun _ => extendDot

theorem acceptsReferenceRead {id : Int} :
    Accepts p ts (s.move (.referenceRead slot joint id line)) ↔
    (∃ (a : Leaf (.mark .dot)) (rest : List Token), ts = a.val :: rest ∧
      Accepts p rest (s.move (.referenceProperty slot joint id line))) ∨
    Accepts p ts (s.move (.operandRead slot (joined joint (.result id none (some line))))) :=
  acceptsContinued (s := s.move (.referenceRead slot joint id line)) rfl extendReference
    fun _ => extendDot

end

end Stepwise.Assembly
