import Stepwise.Proofs.Descent.Programs
import Stepwise.Proofs.Grammar.Acceptance

/-! One reading after another, of tokens in any order. As many rounds as there are tokens suffice, and then
each reading answers as assembly does. Where the tokens are looked at is in order, and at the first end of
input at the latest. -/
namespace Stepwise
open Assembly

variable {t : Token} {s : State} {cause : ParseCause} {fault : ParseFault} {left : List Token} {line : Nat}

/-! Faults of tokens whose numbers can be read. -/

/- A number lexeme that is read as a number, and as a natural number if there are digits only. -/
structure Token.Readable (t : Token) : Prop where
  number : t.kind = .number → (Numeral.read? t.lexeme).isSome = true
  counts : t.kind = .number →
    Numeral.readNat t.lexeme = .error .notDigits ∨ ∃ n, Numeral.readNat t.lexeme = .ok n

namespace Assembly

theorem stepNumberReadable (readable : t.Readable) (number : t.kind = .number)
    (h : State.stepNumber t = .error cause) : cause.isNumeric = false := by
  unfold State.stepNumber at h
  rcases readable.counts number with other | ⟨n, counts⟩
  · rw [other] at h
    cases h
    rfl
  · rw [counts] at h
    cases h

theorem operandReadable {slot : Slot} {joint : Option Joint} (readable : t.Readable)
    (h : s.operand slot joint t = .error cause) : cause.isNumeric = false := by
  unfold State.operand at h
  split at h
  · cases h
  · rename_i number
    obtain ⟨x, read⟩ := Option.isSome_iff_exists.mp (readable.number number)
    rw [read] at h
    cases h
  · cases h
  · cases h
  · cases h
    rfl

theorem numberReadable {wanted : Wanted} (next : Int → State) (readable : t.Readable)
    (h : (if t.kind = .number then (State.stepNumber t).map next else .error (.unexpected wanted)) =
      .error cause) : cause.isNumeric = false := by
  split at h
  · rename_i number
    cases read : State.stepNumber t with
    | ok id =>
      rw [read] at h
      cases h
    | error found =>
      rw [read] at h
      cases h
      exact stepNumberReadable readable number read
  · cases h
    rfl

theorem shiftReadable (readable : t.Readable) (h : s.shift t = .error cause) : cause.isNumeric = false := by
  obtain ⟨declarations, workflows, phase⟩ := s
  let s : State := ⟨declarations, workflows, .top⟩
  cases phase with
  | stepNumber block line =>
    exact numberReadable (fun id => s.move (.stepColon block ⟨id, line⟩)) readable h
  | referencedNumber slot joint line =>
    exact numberReadable (fun id => s.move (.referenceRead slot joint id line)) readable h
  | operand slot joint => exact operandReadable readable h
  | argumentsStart block call =>
    simp only [State.shift] at h
    split at h
    · cases h
    · exact operandReadable readable h
  | _ =>
    -- everything else asks for the kind of the token only
    simp only [State.shift] at h
    (repeat' split at h) <;> cases h <;> rfl

theorem feedReadable (readable : t.Readable) (h : s.feed t = .error cause) : cause.isNumeric = false := by
  cases extended : s.extend? t with
  | some next =>
    rw [State.feedExtended extended] at h
    cases h
  | none =>
    rw [State.feedSettled extended, State.feedClosed s.settleIsClosed] at h
    exact shiftReadable readable h

theorem runReadable (readable : ∀ t ∈ left, t.Readable) (h : (run line s left).outcome = .error fault) :
    fault.cause.isNumeric = false := by
  induction left generalizing s with
  | nil =>
    rw [run] at h
    split at h <;> cases h
    rfl
  | cons t rest ih =>
    obtain ⟨first, others⟩ := List.forall_mem_cons.mp readable
    rw [run] at h
    split at h
    · exact ih others h
    · cases h
      rfl
    · rename_i found _ refused
      cases h
      exact feedReadable first refused

/- What a reading leaves is an end of what it was given. -/
theorem runRest : (run line s left).rest <:+ left := by
  induction left generalizing s with
  | nil =>
    rw [run]
    split <;> exact List.suffix_refl []
  | cons t rest ih =>
    rw [run]
    split
    · exact ih.trans (List.suffix_cons t rest)
    · exact List.suffix_refl _
    · exact List.suffix_cons t rest

theorem readManyReadable {times : Nat} {input : Input} (readable : ∀ t ∈ input.tokens, t.Readable)
    (h : .error fault ∈ input.readMany times) : fault.cause.isNumeric = false := by
  induction times generalizing input with
  | zero => cases h
  | succ times ih =>
    rcases List.mem_cons.mp h with first | later
    · exact runReadable readable first.symm
    · exact ih (fun t inside => readable t (runRest.subset inside)) later

/- The line of the end shows in the line of a fault only. -/
theorem runWords (line line' : Nat) : (run line s left).outcome.mapError ParseFault.text =
    (run line' s left).outcome.mapError ParseFault.text := by
  induction left generalizing s with
  | nil =>
    rw [run, run]
    cases s.finish <;> rfl
  | cons t rest ih =>
    rw [run, run]
    cases s.feed t with
    | ok next => exact ih
    | error cause => cases cause <;> rfl

end Assembly

namespace Descent
variable {row : Row} {place : Place} {rounds : Nat}

/- A reading comes to what assembly comes to, in front of the same tokens. -/
theorem programRuns (stands : row.Stands place left) (enough : left.length < rounds) :
    ∃ place', (program row.tokens rounds).run place =
        some ((run row.stop.line start left).outcome.mapError Stop.fault, place') ∧
      row.Stands place' (run row.stop.line start left).rest := by
  obtain ⟨answer, place', rest, read, stands', -, comes⟩ := Row.itemsFollows enough place stands
  refine ⟨place', ?_⟩
  cases answer with
  | ok p =>
    obtain ⟨same, line, rfl⟩ := comes
    have whole : run row.stop.line start left = ⟨.ok p, []⟩ := by
      refine same.trans ?_
      change Attempt.mk (.ok ⟨p.declarations, p.workflows, some 1⟩) [] = _
      rw [← line]
    rw [whole]
    exact ⟨read, stands'⟩
  | error stop =>
    cases stop with
    | fault fault =>
      have whole : run row.stop.line start left = ⟨.error fault, rest⟩ := comes
      rw [whole]
      exact ⟨read, stands'⟩
    | _ => exact comes.elim

theorem readingsRun (times : Nat) (stands : row.Stands place left) (enough : left.length < rounds) :
    ∃ place' rest, (readings row.tokens rounds times).run place =
        some ((Input.readMany ⟨left, row.stop.line⟩ times).map (·.mapError Stop.fault), place') ∧
      row.Stands place' rest := by
  induction times generalizing place left with
  | zero => exact ⟨place, left, rfl, stands⟩
  | succ times ih =>
    obtain ⟨between, read, stands⟩ := programRuns stands enough
    have fewer : (run row.stop.line start left).rest.length ≤ left.length := runRest.length_le
    obtain ⟨place', rest, others, stands⟩ := ih stands (Nat.lt_of_le_of_lt fewer enough)
    refine ⟨place', rest, ?_, stands⟩
    change ((program row.tokens rounds).run place).bind _ = _
    rw [read]
    change ((readings row.tokens rounds times).run between).bind _ = _
    rw [others]
    rfl

/-! The tokens of a reader, which have an end of input among them. -/

theorem endedBehind {ts : List Token} (some_ : ts ≠ []) : ∃ behind, ended ts = ts ++ behind := by
  unfold ended
  rw [List.getLast?_eq_some_getLast some_]
  dsimp only
  split
  · exact ⟨[], (List.append_nil ts).symm⟩
  · exact ⟨_, rfl⟩

theorem endedPlain {ts : List Token} (goesOn : ∀ t ∈ ts, t.kind ≠ .endOfInput) :
    ended ts = ts ++ [.endAt (ts.getLast?.elim 1 Token.line)] := by
  unfold ended
  cases last : ts.getLast? with
  | none =>
    rw [List.getLast?_eq_none_iff.mp last]
    rfl
  | some t => exact if_neg (goesOn t (List.mem_of_getLast? last))

theorem endedRow (ts : List Token) : ∃ row : Row, row.tokens = ended ts ∧ row.front = beforeEnd ts ∧
    row.stop.line = (Input.ofTokens ts).endLine := by
  cases found : ts.find? (·.kind = .endOfInput) with
  | some stop =>
    have line : (Input.ofTokens ts).endLine = stop.line := by
      unfold Input.ofTokens
      rw [found]
      rfl
    obtain ⟨ends, front, behind, rfl, before⟩ := List.find?_eq_some_iff_append.mp found
    have goesOn : ∀ t ∈ front, t.kind ≠ .endOfInput := fun t inside => by simpa using before t inside
    have ends : stop.kind = .endOfInput := of_decide_eq_true ends
    have some_ : front ++ stop :: behind ≠ [] :=
      List.append_ne_nil_of_right_ne_nil front (List.cons_ne_nil stop behind)
    obtain ⟨further, whole⟩ := endedBehind some_
    refine ⟨⟨front, stop, behind ++ further, goesOn, ends⟩, ?_, ?_, line.symm⟩
    · rw [whole, List.append_assoc]
      rfl
    · unfold beforeEnd
      rw [List.takeWhile_append_of_pos fun t inside => bne_iff_ne.mpr (goesOn t inside),
        List.takeWhile_cons_of_neg (by simp [ends]), List.append_nil]
  | none =>
    have goesOn : ∀ t ∈ ts, t.kind ≠ .endOfInput := fun t inside =>
      by simpa using List.find?_eq_none.mp found t inside
    refine ⟨⟨ts, _, [], goesOn, rfl⟩, (endedPlain goesOn).symm, ?_, ?_⟩
    · exact (List.takeWhile_eq_self_iff.mpr fun t inside => bne_iff_ne.mpr (goesOn t inside)).symm
    · unfold Input.ofTokens
      rw [found]
      rfl

/- How far the cursor may go: the first end of input. -/
def firstEnd (ts : List Token) : Nat := (ended ts).findIdx (·.kind = .endOfInput)

theorem Row.firstEnd (row : Row) : row.tokens.findIdx (·.kind = .endOfInput) = row.front.length := by
  have none : row.front.findIdx (·.kind = .endOfInput) = row.front.length :=
    List.findIdx_eq_length.mpr fun t inside => decide_eq_false (row.goesOn t inside)
  unfold tokens
  rw [List.findIdx_append, none, if_neg (Nat.lt_irrefl _), List.findIdx_cons, decide_eq_true row.ends]
  exact Nat.zero_add _

namespace Row.Stands

theorem start : row.Stands .start row.front := ⟨rfl, Nat.zero_le _, List.pairwise_singleton _ _⟩

theorem looks (h : row.Stands place left) : ∀ i ∈ place.looked ++ [place.cursor], i ≤ row.front.length := by
  intro i seen
  rcases List.mem_append.mp seen with before | here
  · exact Nat.le_trans ((List.pairwise_append.mp h.ordered).2.2 i before _ List.mem_cons_self) h.within
  · exact List.mem_singleton.mp here ▸ h.within

end Row.Stands

theorem parseWords {ts us : List Token} (same : beforeEnd us = beforeEnd ts) :
    (parse us).mapError ParseFault.text = (parse ts).mapError ParseFault.text := by
  change (run _ start (beforeEnd us)).outcome.mapError _ = (run _ start (beforeEnd ts)).outcome.mapError _
  rw [same]
  exact runWords _ _

/- As many rounds as there are tokens suffice for any number of readings. Each of them answers as assembly
does, with a program or a fault of the grammar. No token is looked at that is not there, the cursor does
not go back and is never behind the first end of input, and what the first reading answers depends on the
tokens in front of that end, but for the line of a fault. -/
theorem readingsStay {ts : List Token} (readable : ∀ t ∈ ts, t.Readable) {rounds : Nat}
    (enough : (ended ts).length ≤ rounds) (times : Nat) :
    ∃ answers place, (readings (ended ts) rounds times).run .start = some (answers, place) ∧
      answers = ((Input.ofTokens ts).readMany times).map (·.mapError Stop.fault) ∧
      (∀ answer ∈ answers, (∃ p, answer = .ok p) ∨
        ∃ fault, answer = .error (.fault fault) ∧ fault.cause.isNumeric = false) ∧
      firstEnd ts < (ended ts).length ∧ (∀ i ∈ place.looked ++ [place.cursor], i ≤ firstEnd ts) ∧
      (place.looked ++ [place.cursor]).Pairwise (· ≤ ·) ∧
      ∀ first ∈ answers.head?, first = (parse ts).mapError Stop.fault ∧
        ∀ us, beforeEnd us = beforeEnd ts →
          (parse us).mapError ParseFault.text = (parse ts).mapError ParseFault.text := by
  obtain ⟨row, tokens, front, line⟩ := endedRow ts
  have length : (ended ts).length = row.front.length + 1 + row.behind.length := by
    rw [← tokens, Row.tokens, List.length_append, List.length_cons]
    omega
  have stop : firstEnd ts = row.front.length := by
    rw [← row.firstEnd, tokens]
    rfl
  have input : (⟨row.front, row.stop.line⟩ : Input) = Input.ofTokens ts := by
    rw [front, line]
    rfl
  obtain ⟨place, rest, read, stands⟩ := readingsRun times (Row.Stands.start : row.Stands _ _)
    (show _ < rounds by omega)
  rw [tokens, input] at read
  refine ⟨_, place, read, rfl, ?_, by omega, stop ▸ stands.looks, stands.ordered, ?_⟩
  · intro answer given
    obtain ⟨outcome, among, rfl⟩ := List.mem_map.mp given
    cases outcome with
    | ok p => exact .inl ⟨p, rfl⟩
    | error fault =>
      refine .inr ⟨fault, rfl, readManyReadable (fun t inside => readable t ?_) among⟩
      exact (List.takeWhile_sublist _).subset inside
  · intro first next
    refine ⟨?_, fun us => parseWords⟩
    cases times with
    | zero => cases next
    | succ times => exact (Option.some.inj next).symm

/- A declaration that stops at its name, with an end of input within the tokens and none behind them. -/
def halfDeclared : List Token :=
  [⟨.keyword .letWord, "let", none, 1⟩, ⟨.identifier, "x", none, 1⟩, .endAt 1,
    ⟨.mark .equal, "=", none, 2⟩, ⟨.number, "1", some "1", 2⟩]

theorem halfDeclaredStays :
    (∀ t ∈ halfDeclared, t.Readable) ∧ (ended halfDeclared).length ≤ 6 ∧ firstEnd halfDeclared = 2 ∧
      ∃ place, (readings (ended halfDeclared) 6 2).run .start =
          some ([.error (.fault ⟨.unexpected .variableEqual, none, 1⟩), .ok ⟨[], [], some 1⟩], place) ∧
        (∀ i ∈ place.looked ++ [place.cursor], i ≤ 2) ∧
        (place.looked ++ [place.cursor]).Pairwise (· ≤ ·) := by
  have readable : ∀ t ∈ halfDeclared, t.Readable := by
    have shapes : ∀ t ∈ halfDeclared, t.kind = .number → (Numeral.read? t.lexeme).isSome = true ∧
        ∃ n < 2, Numeral.readNat t.lexeme = .ok n := by decide
    intro t inside
    refine ⟨fun number => (shapes t inside number).1, fun number => ?_⟩
    obtain ⟨n, -, counts⟩ := (shapes t inside number).2
    exact .inr ⟨n, counts⟩
  have few : (ended halfDeclared).length ≤ 6 := by decide
  have stop : firstEnd halfDeclared = 2 := by decide
  obtain ⟨answers, place, read, same, -, -, looks, ordered, -⟩ := readingsStay readable few 2
  rw [same] at read
  exact ⟨readable, few, stop, place, read, stop ▸ looks, ordered⟩

end Descent
end Stepwise
