import Stepwise.Proofs.Grammar.FirstFault
import Stepwise.Proofs.Grammar.Joined

/-! What is wrong with a text. Every fault is on a line of the text, and is one of the lexer or of the
parser, unless a plain step number has more digits than an integer may be read from. -/
namespace Stepwise
open Assembly Lexer

/- Lines are counted from 1, and each line end begins another. -/
def OnLine (source : String) (line : Nat) : Prop := 1 ≤ line ∧ line ≤ 1 + newlines source.toList

namespace Lexer

variable {first last line : Nat} {found : List Token} {s : List Char}

/- What is scanned is found on the lines of the text that is scanned. -/
theorem scanLines (before : ∀ t ∈ found, first ≤ t.line ∧ t.line ≤ last) (begins : first ≤ line)
    (ends : line + newlines s ≤ last) :
    (∀ t ∈ (scan line found s).tokens, first ≤ t.line ∧ t.line ≤ last) ∧
      ∀ f, (scan line found s).fault = some f → first ≤ f.line ∧ f.line ≤ last := by
  fun_induction scan line found s with
  | case1 line found =>
    constructor
    · intro t inside
      rcases List.mem_cons.mp (List.mem_reverse.mp inside) with rfl | inside
      · exact ⟨begins, ends⟩
      · exact before t inside
    · intro f fault
      cases fault
  | case2 line found c rest cutting ih =>
    have counted : newlines (c :: rest) = newlines [c] + newlines rest := newlinesAppend [c] rest
    exact ih before (by omega) (by omega)
  | case3 line found c rest kind more cutting lexeme token ih =>
    have counted : newlines (c :: rest) = newlines lexeme + newlines (rest.drop more) := by
      rw [← newlinesAppend, List.cons_append, List.take_append_drop]
    have here : first ≤ token.line ∧ token.line ≤ last := ⟨begins, Nat.le_of_add_right_le ends⟩
    exact ih (List.forall_mem_cons.mpr ⟨here, before⟩) (by omega) (by omega)
  | case4 line found c rest cutting | case5 line found c rest cause other cutting =>
    refine ⟨fun t inside => before t (List.mem_reverse.mp inside), fun f fault => ?_⟩
    cases fault
    exact ⟨begins, Nat.le_of_add_right_le ends⟩

end Lexer

theorem tokenizeLines {source : String} :
    (∀ f, tokenize source = .error f → OnLine source f.line) ∧
      ∀ ts, tokenize source = .ok ts → ∀ t ∈ ts, OnLine source t.line := by
  obtain ⟨tokens, faults⟩ :=
    @scanLines 1 (1 + newlines source.toList) 1 [] source.toList nofun (Nat.le_refl 1) (Nat.le_refl _)
  change (∀ f, (scan 1 [] source.toList).result = .error f → _) ∧
    ∀ ts, (scan 1 [] source.toList).result = .ok ts → _
  unfold Scan.result
  cases fault : (scan 1 [] source.toList).fault with
  | some f =>
    refine ⟨fun g same => ?_, nofun⟩
    cases same
    exact faults f fault
  | none =>
    refine ⟨nofun, fun ts same => ?_⟩
    cases same
    exact tokens

namespace Assembly

variable {s next : State} {t : Token} {ts front : List Token}

theorem fillWants (e : Expr) (slot : Slot) : (s.fill e slot).phase.wantsNumber = false := by
  cases slot <;> rfl

theorem settleWants : s.settle.phase.wantsNumber = s.phase.wantsNumber := by
  obtain ⟨declarations, workflows, phase⟩ := s
  cases phase with
  | nameRead slot | referenceRead slot | operandRead slot => exact fillWants _ slot
  | _ => rfl

theorem operandWants {slot : Slot} {joint : Option Joint} (h : s.operand slot joint t = .ok next)
    (wanted : next.phase.wantsNumber = true) : t.kind = .keyword .step := by
  unfold State.operand at h
  split at h
  · cases h; cases wanted
  · split at h
    · cases h; cases wanted
    · cases h
  · cases h; cases wanted
  · assumption
  · cases h

theorem shiftWants (h : s.shift t = .ok next) (wanted : next.phase.wantsNumber = true) :
    t.kind = .keyword .step := by
  obtain ⟨declarations, workflows, phase⟩ := s
  cases phase with
  | operand slot joint => exact operandWants h wanted
  | argumentsStart block call =>
    simp only [State.shift] at h
    split at h
    · cases h; cases wanted
    · exact operandWants h wanted
  | steps block =>
    simp only [State.shift] at h
    split at h
    · cases h
      cases block <;> cases wanted
    · split at h
      · assumption
      · cases h
  | stepNumber block line | referencedNumber slot joint line =>
    simp only [State.shift] at h
    split at h
    · cases read : State.stepNumber t with
      | error cause => rw [read] at h; cases h
      | ok id => rw [read] at h; cases h; cases wanted
    · cases h
  | _ =>
    -- everywhere else a token that is taken leads to a place that wants no number
    simp only [State.shift] at h
    (repeat' split at h) <;> cases h <;> cases wanted

theorem extendWants (h : s.extend? t = some next) : next.phase.wantsNumber = false := by
  unfold State.extend? at h
  split at h
  · cases h; rfl
  · cases h; rfl
  · cases h; rfl
  · cases h; rfl
  · split at h
    · obtain ⟨found, _, rfl⟩ := Option.map_eq_some_iff.mp h
      rfl
    · cases h
  · cases h

/- Only the keyword of a step leads to where a step number has to follow. -/
theorem feedWants (h : s.feed t = .ok next) (wanted : next.phase.wantsNumber = true) :
    t.kind = .keyword .step := by
  cases extended : s.extend? t with
  | none =>
    rw [State.feedSettled extended, State.feedClosed s.settleIsClosed] at h
    exact shiftWants h wanted
  | some other =>
    rw [State.feedExtended extended] at h
    cases h
    rw [extendWants extended] at wanted
    cases wanted

theorem feedAllLast (h : s.feedAll (front ++ [t]) = .ok next) :
    ∃ between : State, between.feed t = .ok next := by
  induction front generalizing s with
  | nil =>
    cases fed : s.feed t with
    | error cause => simp [State.feedAll, fed, bind, Except.bind] at h
    | ok between =>
      have last : (.ok between : Except ParseCause State) = .ok next := (feedAllCons fed).symm.trans h
      exact ⟨s, fed.trans last⟩
  | cons u front ih =>
    cases fed : s.feed u with
    | error cause => simp [State.feedAll, fed, bind, Except.bind] at h
    | ok between => exact ih ((feedAllCons fed).symm.trans h)

theorem wantsBehind (taken : start.feedAll front = .ok next)
    (wanted : next.phase.wantsNumber = true) :
    ∃ before, ∃ word : Grammar.Leaf (.keyword .step), front = before ++ [word.val] := by
  rcases List.eq_nil_or_concat front with rfl | ⟨before, u, rfl⟩
  · cases taken
    cases wanted
  · rw [List.concat_eq_append] at taken ⊢
    obtain ⟨between, fed⟩ := feedAllLast taken
    exact ⟨before, ⟨u, feedWants fed wanted⟩, rfl⟩

/- What a run that fails blames is on the line of one of its tokens, or on that of the end. -/
theorem runFaults {endLine : Nat} {fault : ParseFault} (spelled : NumbersSpelled ts)
    (h : (run endLine start ts).outcome = .error fault) :
    (fault.line = endLine ∨ ∃ t ∈ ts, fault.line = t.line) ∧
      (fault.cause.isNumeric = true → ∃ t, StepNumbered ts t ∧ t.IsPlain ∧
        Numeral.digitLimit < t.lexeme.toList.length ∧
        fault = ⟨.tooLong t.lexeme.toList.length, some t.lexeme, t.line⟩) := by
  obtain ⟨front, next, taken, ⟨rfl, wanted, unfinished⟩ | ⟨t, rest, cause, rfl, refused⟩⟩ :=
    runStops h
  · have fails : (run endLine start (ts ++ [])).outcome = (run endLine next []).outcome :=
      runBehind taken
    rw [List.append_nil, h, runAtEnd unfinished] at fails
    cases fails
    exact ⟨.inl rfl, nofun⟩
  · rw [runBehind taken, runAtFault refused] at h
    cases h
    refine ⟨.inr ⟨t, by simp, rfl⟩, fun numeric => ?_⟩
    cases feedFault (fun number => spelled t (by simp) number) refused with
    | shape kind => rw [kind] at numeric; cases numeric
    | long wanted number plain long same =>
      rw [settleWants] at wanted
      obtain ⟨before, word, rfl⟩ := wantsBehind taken wanted
      cases same
      exact ⟨t, ⟨number, word, before, rest, by simp⟩, plain, long, rfl⟩

end Assembly

theorem endLineFound {ts : List Token} (some : ts ≠ []) :
    ∃ t ∈ ts, (Input.ofTokens ts).endLine = t.line := by
  unfold Input.ofTokens
  dsimp only
  cases found : ts.find? (·.kind = .endOfInput) with
  | some t => exact ⟨t, List.mem_of_find?_eq_some found, rfl⟩
  | none =>
    rw [List.getLast?_eq_getLast_of_ne_nil some]
    exact ⟨_, List.getLast_mem some, rfl⟩

section
variable {source : String} {ts : List Token} {fault : ParseFault}

theorem parseOnLine (scanned : tokenize source = .ok ts) (failed : parse ts = .error fault) :
    OnLine source fault.line := by
  have lines := tokenizeLines.2 ts scanned
  rcases (runFaults (beforeEndSpelled scanned) failed).1 with atEnd | ⟨t, inside, at_⟩
  · obtain ⟨t, inside, same⟩ := endLineFound (scannedBeforeEnd scanned).1
    rw [atEnd, same]
    exact lines t inside
  · rw [at_]
    exact lines t ((List.takeWhile_prefix _).subset inside)

/- The one fault that is not of the parser. -/
theorem parseNumeric (scanned : tokenize source = .ok ts) (failed : parse ts = .error fault)
    (numeric : fault.cause.isNumeric = true) :
    ∃ t, StepNumbered ts t ∧ t.IsPlain ∧ Numeral.digitLimit < t.lexeme.toList.length ∧
      fault = ⟨.tooLong t.lexeme.toList.length, some t.lexeme, t.line⟩ := by
  obtain ⟨t, ⟨number, word, inside⟩, rest⟩ :=
    (runFaults (beforeEndSpelled scanned) failed).2 numeric
  exact ⟨t, ⟨number, word, inside.trans (List.takeWhile_prefix _).isInfix⟩, rest⟩

end

/- A text is scanned and read, or has a fault of the lexer or of the parser, which is on one of its
lines; other than these there is only a plain step number of more digits than an integer is read
from. -/
theorem frontFaults (source : String) :
    (∀ f, tokenize source = .error f → OnLine source f.line) ∧
      ∀ ts f, tokenize source = .ok ts → parse ts = .error f → OnLine source f.line ∧
        (f.cause.isNumeric = true → ∃ t, StepNumbered ts t ∧ t.IsPlain ∧
          Numeral.digitLimit < t.lexeme.toList.length ∧
          f = ⟨.tooLong t.lexeme.toList.length, some t.lexeme, t.line⟩) :=
  ⟨tokenizeLines.1, fun _ _ scanned failed =>
    ⟨parseOnLine scanned failed, parseNumeric scanned failed⟩⟩

/- A text that is one lexeme. -/
theorem tokenizeLexeme {kind : TokenKind} {source : String} (h : Lexeme kind source.toList) :
    tokenize source = .ok [⟨kind, source, literal? kind source.toList, 1⟩,
      .endAt (1 + newlines source.toList)] := by
  change (scan 1 [] source.toList).result = _
  obtain ⟨c, s, spelling, _⟩ := h.shape
  rw [spelling] at h ⊢
  have cutting : cut c (s ++ []) = .token kind s.length := cutApart h nofun
  rw [List.append_nil] at cutting
  rw [scanToken cutting, List.take_length, List.drop_length, scan, ← spelling, String.ofList_toList]
  rfl

/- A step number of so many digits. -/
def longStep (digits : Nat) : String := String.ofList (List.replicate digits '1')

def longStepTokens (digits : Nat) : List Token :=
  [⟨.keyword .letWord, "let", none, 1⟩, ⟨.identifier, "a", none, 1⟩, ⟨.mark .equal, "=", none, 1⟩,
    ⟨.keyword .step, "step", none, 1⟩, ⟨.number, longStep digits, some (longStep digits), 2⟩, .endAt 2]

section
variable {digits : Nat}

theorem longStepDigits : ∀ c ∈ (longStep digits).toList, Text.isDigit c = true := by
  intro c inside
  rw [longStep, String.toList_ofList] at inside
  rw [List.eq_of_mem_replicate inside]
  decide

theorem longStepLength : (longStep digits).toList.length = digits := by
  rw [longStep, String.toList_ofList, List.length_replicate]

theorem longStepSome (some : 0 < digits) : (longStep digits).toList ≠ [] :=
  List.ne_nil_of_length_pos (longStepLength.symm ▸ some)

theorem longStepScanned (some : 0 < digits) :
    tokenize ("let a = step" ++ "\n" ++ longStep digits) = .ok (longStepTokens digits) := by
  have scanned : tokenize "let a = step" = .ok [⟨.keyword .letWord, "let", none, 1⟩,
      ⟨.identifier, "a", none, 1⟩, ⟨.mark .equal, "=", none, 1⟩, ⟨.keyword .step, "step", none, 1⟩,
      .endAt 1] := by cbv
  have flat : newlines (longStep digits).toList = 0 := by
    refine List.count_eq_zero.mpr fun inside => ?_
    exact absurd (longStepDigits _ inside) (by decide)
  have spelled : NumberSpelling (longStep digits).toList :=
    .digits _ (longStepSome some) longStepDigits
  rw [tokenizeJoined scanned, tokenizeLexeme (.number _ spelled), flat, literal?, String.ofList_toList]
  rfl

theorem longStepRefused (long : Numeral.digitLimit < digits) :
    parse (longStepTokens digits) = .error ⟨.tooLong digits, some (longStep digits), 2⟩ := by
  have read : Numeral.readNat (longStep digits) = .error (.tooLong digits) := by
    rw [Numeral.readNatPlain (longStepSome (Nat.zero_lt_of_lt long)) longStepDigits, longStepLength,
      if_pos long]
  let wanting : State := ⟨[], [], .referencedNumber (.value .letWord "a" 1) none 1⟩
  have taken : start.feedAll ((longStepTokens digits).take 4) = .ok wanting := by rfl
  let number : Token := ⟨.number, longStep digits, some (longStep digits), 2⟩
  have refused : wanting.feed number = .error (.tooLong digits) := by
    change (State.stepNumber number >>= _) = _
    rw [State.stepNumber, read]
    rfl
  change (run 2 start ((longStepTokens digits).take 4 ++ [number])).outcome = _
  rw [runBehind taken, runAtFault refused]

end

/- One digit more than the limit: the fault is none of the parser. -/
theorem longStepNumeric :
    ∃ ts f, tokenize ("let a = step" ++ "\n" ++ longStep 4301) = .ok ts ∧ parse ts = .error f ∧
      f.cause.isNumeric = true :=
  ⟨_, _, longStepScanned (by decide), longStepRefused (by decide), rfl⟩

end Stepwise
