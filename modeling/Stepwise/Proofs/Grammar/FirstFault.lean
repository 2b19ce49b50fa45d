import Stepwise.Proofs.Grammar.Acceptance

/-! The first fault of a text. Whatever has been taken up to a fault can be completed to a program,
so reading stops at the first token that no program could have there; and what stands behind that
token takes no part in the fault. -/
namespace Stepwise.Assembly

/- A token other than the end of input; a number is spelled as one and has not too many digits. -/
structure Ordinary (t : Token) : Prop where
  goesOn : t.kind ≠ .endOfInput
  spelled : t.kind = .number → NumberSpelling t.lexeme.toList
  short : t.kind = .number → t.lexeme.toList.countP Text.isDigit ≤ Numeral.digitLimit

/- Ordinary tokens, and behind them the end of input. -/
def Ended (ts : List Token) : Prop :=
  ∃ body stop, ts = body ++ [stop] ∧ stop.kind = .endOfInput ∧ ∀ t ∈ body, Ordinary t

/- Some ordinary tokens lead from the state to a program. -/
def Completable (s : State) : Prop := ∃ p more, (∀ t ∈ more, Ordinary t) ∧ Accepts p more s

/- A token of any kind; as a number it is spelled as one. -/
def sample (kind : TokenKind) : Token := ⟨kind, "0", none, 1⟩

theorem sampleDigits : ∀ c ∈ "0".toList, Text.isDigit c = true := List.all_eq_true.mp (by decide)

theorem sampleOrdinary {kind : TokenKind} (h : kind ≠ .endOfInput) : Ordinary (sample kind) where
  goesOn := h
  spelled _ := .digits "0".toList (by decide) sampleDigits
  short _ := show "0".toList.countP Text.isDigit ≤ Numeral.digitLimit by decide

theorem sampleNumber : State.stepNumber (sample .number) = .ok 0 :=
  (State.stepNumberOk (.digits "0".toList (by decide) sampleDigits)).mpr
    ⟨sampleDigits, by decide, by decide⟩

namespace Completable

variable {s : State}

theorem after (kind : TokenKind) (goesOn : kind ≠ .endOfInput) {next : State}
    (fed : s.feed (sample kind) = .ok next) (h : Completable next) : Completable s := by
  obtain ⟨p, more, ordinary, accepted⟩ := h
  refine ⟨p, sample kind :: more, ?_, next, fed, accepted⟩
  intro t inside
  rcases List.mem_cons.mp inside with rfl | inside
  · exact sampleOrdinary goesOn
  · exact ordinary t inside

theorem mark (m : Mark) {next : State} (fed : s.feed (sample (.mark m)) = .ok next)
    (h : Completable next) : Completable s :=
  .after (.mark m) (by simp) fed h

theorem settled (h : Completable s.settle) : Completable s := by
  obtain ⟨p, more, ordinary, accepted⟩ := h
  exact ⟨p, more, ordinary, acceptsSettled accepted⟩

theorem top (declarations : List Declaration) (workflows : List Workflow) :
    Completable ⟨declarations, workflows, .top⟩ :=
  ⟨_, [], nofun, rfl⟩

theorem inBlock (block : Block) : ∀ (s : State) (more : List Step),
    Completable (s.move (.steps (block.addAll more))) := by
  -- closing a block leads into the one around it, which has gained a step by then
  induction block with
  | workflow name line steps =>
    intro s more
    exact .mark .rightBrace rfl (.top _ _)
  | thenPart outer head condition ifLine steps ih =>
    intro s more
    have closed := ih s [.ifOnly head.id condition (steps ++ more) (some head.line) (some ifLine)]
    rw [addAllCons, addAllNone] at closed
    exact .mark .rightBrace rfl (.settled closed)
  | elsePart outer head condition ifLine body steps ih =>
    intro s more
    have closed := ih s
      [.ifElse head.id condition body (steps ++ more) (some head.line) (some ifLine)]
    rw [addAllCons, addAllNone] at closed
    exact .mark .rightBrace rfl closed

theorem steps (s : State) (block : Block) : Completable (s.move (.steps block)) := by
  have empty := inBlock block s []
  rwa [addAllNone] at empty

theorem filled (s : State) (e : Expr) (slot : Slot) : Completable (s.fill e slot) := by
  cases slot with
  | value keyword name line => exact .top _ _
  | argument block call before => exact .mark .rightParen rfl (.steps s _)
  | condition block head line =>
    exact .mark .rightParen rfl (.mark .leftBrace rfl (.steps s _))

theorem operand (s : State) (slot : Slot) (joint : Option Joint) :
    Completable (s.move (.operand slot joint)) :=
  .after .string (by decide) rfl (.settled (.filled _ _ slot))

theorem content (s : State) (block : Block) (head : Head) :
    Completable (s.move (.stepContent block head)) :=
  .after .identifier (by decide) rfl (.settled (.steps s _))

/- A state that requires a step number. -/
theorem number (next : Int → State) (closed : s.phase.isOpen = false)
    (shifts : s.shift (sample .number) = (State.stepNumber (sample .number)).map next)
    (h : Completable (next 0)) : Completable s := by
  refine .after .number (by decide) ?_ h
  rw [State.feedClosed closed, shifts, sampleNumber]
  rfl

end Completable

/- Whatever has been read so far, some program begins with it. -/
theorem completable (s : State) : Completable s := by
  obtain ⟨declarations, workflows, phase⟩ := s
  let s : State := ⟨declarations, workflows, .top⟩
  change Completable (s.move phase)
  cases phase with
  | top => exact .top _ _
  | workflowName line => exact .after .string (by decide) rfl (.mark .leftBrace rfl (.steps s _))
  | workflowStart name line => exact .mark .leftBrace rfl (.steps s _)
  | variableName keyword line =>
    exact .after .identifier (by decide) rfl (.mark .equal rfl (.operand s _ _))
  | variableEqual keyword name line => exact .mark .equal rfl (.operand s _ _)
  | steps block => exact .steps s block
  | stepNumber block line =>
    refine .number (fun id => s.move (.stepColon block ⟨id, line⟩)) rfl rfl ?_
    exact .mark .colon rfl (.content s _ _)
  | stepColon block head => exact .mark .colon rfl (.content s _ _)
  | stepContent block head => exact .content s _ _
  | commandRead block call => exact .settled (.steps s _)
  | argumentsStart block call => exact .mark .rightParen rfl (.steps s _)
  | argumentsEnd block call arguments => exact .mark .rightParen rfl (.steps s _)
  | conditionStart block head line =>
    exact .mark .leftParen rfl (.operand s _ _)
  | conditionEnd block head line condition => exact .filled s condition (.condition block head line)
  | thenStart block head line condition => exact .mark .leftBrace rfl (.steps s _)
  | thenRead block head line condition body => exact .settled (.steps s _)
  | elseStart block head line condition body => exact .mark .leftBrace rfl (.steps s _)
  | operand slot joint => exact .operand s slot joint
  | nameRead slot joint name line => exact .settled (.filled _ _ slot)
  | nameProperty slot joint name line => exact .after .identifier (by decide) rfl (.settled (.filled _ _ slot))
  | referencedNumber slot joint line =>
    refine .number (fun id => s.move (.referenceRead slot joint id line)) rfl rfl ?_
    exact .settled (.filled _ _ slot)
  | referenceRead slot joint id line => exact .settled (.filled _ _ slot)
  | referenceProperty slot joint id line =>
    exact .after .identifier (by decide) rfl (.settled (.filled _ _ slot))
  | operandRead slot operand => exact .settled (.filled _ _ slot)

/- A phase that takes nothing but a step number. -/
def Phase.wantsNumber : Phase → Bool
  | .stepNumber .. | .referencedNumber .. => true
  | _ => false

/- What a token is at fault for: its kind, or a point in a step number, or a plain step number that is
too long. -/
inductive Blamed (phase : Phase) (t : Token) (cause : ParseCause) : Prop where
  | shape (kind : cause.isNumeric = false)
  | long (wanted : phase.wantsNumber = true) (number : t.kind = .number) (plain : t.IsPlain)
      (long : Numeral.digitLimit < t.lexeme.toList.length)
      (same : cause = .tooLong t.lexeme.toList.length)

theorem Blamed.ordinary {phase : Phase} {t : Token} {cause : ParseCause} (ordinary : Ordinary t)
    (h : Blamed phase t cause) : cause.isNumeric = false := by
  cases h with
  | shape kind => exact kind
  | long wanted number plain long =>
    have digits : t.lexeme.toList.countP Text.isDigit = t.lexeme.toList.length :=
      List.countP_eq_length.mpr plain
    exact absurd (digits ▸ ordinary.short number) (Nat.not_le.mpr long)

section
variable {t : Token} {cause : ParseCause} (spelled : t.kind = .number → NumberSpelling t.lexeme.toList)
include spelled

theorem stepNumberFault {phase : Phase} (wanted : phase.wantsNumber = true) (number : t.kind = .number)
    (h : State.stepNumber t = .error cause) : Blamed phase t cause := by
  have spelling := spelled number
  generalize shape : t.lexeme.toList = lexeme at spelling
  unfold State.stepNumber at h
  cases spelling with
  | digits _ some digits =>
    subst shape
    rw [Numeral.readNatPlain some digits] at h
    by_cases long : Numeral.digitLimit < t.lexeme.toList.length
    · rw [if_pos long] at h
      cases h
      exact .long wanted number digits long rfl
    · rw [if_neg long] at h
      cases h
  | point whole fraction =>
    have inside : '.' ∈ t.lexeme.toList := by simp [shape]
    rw [Numeral.readNatPoint inside] at h
    cases h
    exact .shape rfl

theorem operandFault {s : State} {slot : Slot} {joint : Option Joint}
    (h : s.operand slot joint t = .error cause) : cause.isNumeric = false := by
  unfold State.operand at h
  split at h
  · cases h
  · rename_i number
    have read := Numeral.readSpelled (spelled number)
    rw [String.ofList_toList] at read
    rw [read] at h
    cases h
  · cases h
  · cases h
  · cases h
    rfl

theorem numberFault {phase : Phase} (next : Int → State) {other : ParseCause}
    (wanted : phase.wantsNumber = true) (kind : other.isNumeric = false)
    (h : (if t.kind = .number then (State.stepNumber t).map next else .error other) = .error cause) :
    Blamed phase t cause := by
  split at h
  · rename_i number
    cases read : State.stepNumber t with
    | ok id => rw [read] at h; cases h
    | error found =>
      rw [read] at h
      cases h
      exact stepNumberFault spelled wanted number read
  · cases h
    exact .shape kind

theorem shiftFault {s : State} (h : s.shift t = .error cause) : Blamed s.phase t cause := by
  obtain ⟨declarations, workflows, phase⟩ := s
  let s : State := ⟨declarations, workflows, .top⟩
  cases phase with
  | stepNumber block line =>
    exact numberFault spelled (fun id => s.move (.stepColon block ⟨id, line⟩)) rfl rfl h
  | referencedNumber slot joint line =>
    exact numberFault spelled (fun id => s.move (.referenceRead slot joint id line)) rfl rfl h
  | operand slot joint => exact .shape (operandFault spelled h)
  | argumentsStart block call =>
    simp only [State.shift] at h
    split at h
    · cases h
    · exact .shape (operandFault spelled h)
  | _ =>
    -- everything else asks for the kind of the token only
    simp only [State.shift] at h
    refine .shape ?_
    (repeat' split at h) <;> cases h <;> rfl

theorem feedFault {s : State} (h : s.feed t = .error cause) : Blamed s.settle.phase t cause := by
  cases extended : s.extend? t with
  | some next =>
    rw [State.feedExtended extended] at h
    cases h
  | none =>
    rw [State.feedSettled extended, State.feedClosed s.settleIsClosed] at h
    exact shiftFault spelled h

end

/- The state that the tokens lead to, if all of them are taken. -/
def State.feedAll (s : State) (ts : List Token) : Except ParseCause State := ts.foldlM feed s

section
variable {s next : State} {front rest : List Token} {endLine : Nat} {t : Token} {cause : ParseCause}
  {fault : ParseFault}

theorem feedAllCons (fed : s.feed t = .ok next) :
    s.feedAll (t :: rest) = next.feedAll rest := by
  unfold State.feedAll
  rw [List.foldlM_cons, fed]
  rfl

/- What has been taken shows in the state alone. -/
theorem runBehind (taken : s.feedAll front = .ok next) :
    (run endLine s (front ++ rest)).outcome = (run endLine next rest).outcome := by
  induction front generalizing s with
  | nil =>
    cases taken
    rfl
  | cons t front ih =>
    cases fed : s.feed t with
    | error cause => simp [State.feedAll, fed, bind, Except.bind] at taken
    | ok between =>
      rw [feedAllCons fed] at taken
      rw [List.cons_append, run, fed]
      exact ih taken

theorem runAtFault (refused : next.feed t = .error cause) :
    (run endLine next (t :: rest)).outcome = .error ⟨cause, some t.lexeme, t.line⟩ := by
  rw [run, refused]
  cases cause <;> rfl

theorem runAtEnd {wanted : Wanted} (unfinished : next.finish = .error wanted) :
    (run endLine next []).outcome = .error ⟨.unexpected wanted, none, endLine⟩ := by
  rw [run, unfinished]

/- A run that fails has taken all tokens in front of the one that it refuses, or all tokens. -/
theorem runStops {ts : List Token} (h : (run endLine s ts).outcome = .error fault) :
    ∃ front next, s.feedAll front = .ok next ∧
      ((ts = front ∧ ∃ wanted, next.finish = .error wanted) ∨
        ∃ t rest cause, ts = front ++ t :: rest ∧ next.feed t = .error cause) := by
  induction ts generalizing s with
  | nil =>
    refine ⟨[], s, rfl, .inl ⟨rfl, ?_⟩⟩
    cases finished : s.finish with
    | error wanted => exact ⟨wanted, rfl⟩
    | ok p =>
      rw [run, finished] at h
      cases h
  | cons t rest ih =>
    cases fed : s.feed t with
    | error cause => exact ⟨[], s, rfl, .inr ⟨t, rest, cause, rfl, fed⟩⟩
    | ok between =>
      rw [run, fed] at h
      obtain ⟨front, next, taken, stop⟩ := ih h
      refine ⟨t :: front, next, (feedAllCons fed).trans taken, ?_⟩
      rcases stop with ⟨rfl, unfinished⟩ | ⟨u, behind, cause, rfl, refused⟩
      · exact .inl ⟨rfl, unfinished⟩
      · exact .inr ⟨u, behind, cause, rfl, refused⟩

theorem acceptsTaken {p : Program} (taken : s.feedAll front = .ok next) (h : Accepts p rest next) :
    Accepts p (front ++ rest) s := by
  have behind : (run 0 next rest).outcome = .ok p := runAccepts.mpr h
  exact runAccepts.mp ((runBehind taken).trans behind)

end
end Stepwise.Assembly

namespace Stepwise
open Assembly

variable {front rest : List Token} {t : Token} {next : State}

theorem beforeEndAt (ordinary : ∀ t ∈ front, Ordinary t) :
    beforeEnd (front ++ rest) = front ++ beforeEnd rest :=
  List.takeWhile_append_of_pos fun t inside => by simpa using (ordinary t inside).goesOn

theorem beforeEndStop (stop : t.kind = .endOfInput) : beforeEnd (t :: rest) = [] :=
  List.takeWhile_cons_of_neg (by simp [stop])

theorem parseRefused {cause : ParseCause} (ordinary : ∀ t ∈ front, Ordinary t)
    (taken : start.feedAll front = .ok next) (goesOn : t.kind ≠ .endOfInput)
    (refused : next.feed t = .error cause) :
    parse (front ++ t :: rest) = .error ⟨cause, some t.lexeme, t.line⟩ := by
  have inFront : beforeEnd (t :: rest) = t :: beforeEnd rest :=
    List.takeWhile_cons_of_pos (by simpa using goesOn)
  change (run _ start (beforeEnd (front ++ t :: rest))).outcome = _
  rw [beforeEndAt ordinary, inFront, runBehind taken, runAtFault refused]

theorem parseUnfinished {wanted : Wanted} (ordinary : ∀ t ∈ front, Ordinary t)
    (taken : start.feedAll front = .ok next) (stop : t.kind = .endOfInput)
    (unfinished : next.finish = .error wanted) :
    parse (front ++ t :: rest) = .error ⟨.unexpected wanted, none, t.line⟩ := by
  have line : (Input.ofTokens (front ++ t :: rest)).endLine = t.line := by
    have before : front.find? (·.kind = .endOfInput) = none :=
      List.find?_eq_none.mpr fun x inside => by simpa using (ordinary x inside).goesOn
    simp [Input.ofTokens, List.find?_append, before, stop]
  change (run _ start (beforeEnd (front ++ t :: rest))).outcome = _
  rw [beforeEndAt ordinary, beforeEndStop stop, runBehind taken, runAtEnd unfinished, line]

/- A token stops a text: all in front of it is taken, and it is at fault whatever follows it. -/
theorem parseStops {ts : List Token} {fault : ParseFault} (ended : Ended ts)
    (failed : parse ts = .error fault) :
    ∃ front t rest next, ts = front ++ t :: rest ∧ (∀ x ∈ front, Ordinary x) ∧
      start.feedAll front = .ok next ∧ fault.line = t.line ∧ fault.cause.isNumeric = false ∧
      ∀ behind, parse (front ++ t :: behind) = .error fault := by
  obtain ⟨body, stop, rfl, atEnd, ordinary⟩ := ended
  have stopped : (run (Input.ofTokens (body ++ [stop])).endLine start body).outcome =
      .error fault := by
    have whole : beforeEnd (body ++ [stop]) = body := by
      rw [beforeEndAt ordinary, beforeEndStop atEnd, List.append_nil]
    rw [← failed]
    exact congrArg (fun ts => (run _ start ts).outcome) whole.symm
  obtain ⟨front, next, taken, ⟨rfl, wanted, unfinished⟩ | ⟨t, rest, cause, rfl, refused⟩⟩ :=
    runStops stopped
  · have fails : ∀ behind, parse (body ++ stop :: behind) =
        .error ⟨.unexpected wanted, none, stop.line⟩ :=
      fun _ => parseUnfinished ordinary taken atEnd unfinished
    cases (fails []).symm.trans failed
    exact ⟨body, stop, [], next, rfl, ordinary, taken, rfl, rfl, fails⟩
  · have inFront : ∀ x ∈ front, Ordinary x := fun x inside =>
      ordinary x (List.mem_append_left _ inside)
    have itself : Ordinary t := ordinary t (by simp)
    have fails : ∀ behind, parse (front ++ t :: behind) = .error ⟨cause, some t.lexeme, t.line⟩ :=
      fun _ => parseRefused inFront taken itself.goesOn refused
    rw [List.append_assoc, List.cons_append] at failed ⊢
    cases (fails _).symm.trans failed
    have kind := (feedFault itself.spelled refused).ordinary itself
    exact ⟨front, t, _, next, rfl, inFront, taken, rfl, kind, fails⟩

/- Tokens that have been taken are the beginning of a program. -/
theorem takenBegins (ordinary : ∀ t ∈ front, Ordinary t) (taken : start.feedAll front = .ok next) :
    ∃ whole p, Ended whole ∧ whole.take front.length = front ∧ parse whole = .ok p := by
  obtain ⟨p, more, further, accepted⟩ := completable next
  have all : ∀ t ∈ front ++ more, Ordinary t := fun t inside =>
    (List.mem_append.mp inside).elim (ordinary t) (further t)
  refine ⟨front ++ more ++ [.endAt 1], p, ⟨front ++ more, _, rfl, rfl, all⟩, ?_, ?_⟩
  · rw [List.append_assoc, List.take_left]
  · rw [parseAccepts, beforeEndAt all, beforeEndStop rfl, List.append_nil]
    exact acceptsTaken taken accepted

/- A text that is no program has a first token that no program has there. The fault is on its line
and the same behind whatever tokens follow it, and those in front of it do begin a program. -/
theorem parseFirstFault {ts : List Token} {fault : ParseFault} (ended : Ended ts)
    (failed : parse ts = .error fault) :
    fault.cause.isNumeric = false ∧ ∃ i t, ts[i]? = some t ∧ fault.line = t.line ∧
      (∀ other, other.take (i + 1) = ts.take (i + 1) → parse other = .error fault) ∧
      ∃ whole p, Ended whole ∧ whole.take i = ts.take i ∧ parse whole = .ok p := by
  obtain ⟨front, t, rest, next, rfl, ordinary, taken, line, plain, fails⟩ := parseStops ended failed
  have upTo : (front ++ t :: rest).take (front.length + 1) = front ++ [t] := by
    rw [List.take_length_add_append]
    rfl
  refine ⟨plain, front.length, t, by simp, line, ?_, ?_⟩
  · intro other same
    rw [upTo] at same
    have split : other = front ++ t :: other.drop (front.length + 1) := by
      calc other = other.take (front.length + 1) ++ other.drop (front.length + 1) :=
            (List.take_append_drop _ _).symm
        _ = front ++ t :: other.drop (front.length + 1) := by
            rw [same, List.append_assoc, List.singleton_append]
    rw [split]
    exact fails _
  · rw [List.take_left]
    exact takenBegins ordinary taken

/- An `else` clause that is left open within a workflow. -/
def openElse : List Token :=
  [⟨.keyword .workflow, "workflow", none, 1⟩, ⟨.string, "\"w\"", some "w", 1⟩,
    ⟨.mark .leftBrace, "\x7b", none, 1⟩, ⟨.keyword .step, "step", none, 2⟩,
    ⟨.number, "1", some "1", 2⟩, ⟨.mark .colon, ":", none, 2⟩, ⟨.keyword .ifWord, "if", none, 2⟩,
    ⟨.mark .leftParen, "(", none, 2⟩, ⟨.identifier, "a", none, 2⟩,
    ⟨.mark .rightParen, ")", none, 2⟩, ⟨.mark .leftBrace, "\x7b", none, 2⟩,
    ⟨.mark .rightBrace, "\x7d", none, 3⟩, ⟨.keyword .elseWord, "else", none, 3⟩,
    ⟨.mark .semicolon, ";", none, 3⟩, ⟨.mark .rightBrace, "\x7d", none, 4⟩, .endAt 4]

def openElseFault : ParseFault := ⟨.unexpected .elseStart, some ";", 3⟩

theorem openElseFirstFault :
    openElseFault.message = "Expected '\x7b' after 'else', found ';' at line 3" ∧
    Ended openElse ∧ parse openElse = .error openElseFault ∧
    openElseFault.cause.isNumeric = false ∧ ∃ i t, openElse[i]? = some t ∧
      openElseFault.line = t.line ∧
      (∀ other, other.take (i + 1) = openElse.take (i + 1) → parse other = .error openElseFault) ∧
      ∃ whole p, Ended whole ∧ whole.take i = openElse.take i ∧ parse whole = .ok p := by
  have shapes : ∀ t ∈ openElse.dropLast,
      t.kind ≠ .endOfInput ∧ (t.kind = .number → t.lexeme = "1") := by decide
  have ordinary : ∀ t ∈ openElse.dropLast, Ordinary t := by
    intro t inside
    obtain ⟨goesOn, one⟩ := shapes t inside
    refine ⟨goesOn, fun number => ?_, fun number => ?_⟩
    · rw [one number]
      exact .digits "1".toList (by decide) (List.all_eq_true.mp (by decide))
    · rw [one number]
      decide
  have ended : Ended openElse := ⟨openElse.dropLast, .endAt 4, rfl, rfl, ordinary⟩
  have failed : parse openElse = .error openElseFault := by rfl
  exact ⟨by decide, ended, failed, parseFirstFault ended failed⟩

end Stepwise
