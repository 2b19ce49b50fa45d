import Stepwise.Program.Descent
import Stepwise.Proofs.Grammar.Phases

/-! Readers and the states of assembly. A reader follows a state if it takes its tokens as that state does,
and either comes to a state from which everything goes on as before or stops with the same fault in front
of the same tokens. It never looks behind the first end of input, its cursor does not go back, and it has a
value. -/
namespace Stepwise.Descent
open Assembly

/- Tokens with the first end of input among them. -/
structure Row where
  front : List Token
  stop : Token
  behind : List Token
  goesOn : ∀ t ∈ front, t.kind ≠ .endOfInput
  ends : stop.kind = .endOfInput

namespace Row

def tokens (row : Row) : List Token := row.front ++ row.stop :: row.behind

/- The token in front of which the cursor is if these are left. -/
def first (row : Row) (left : List Token) : Token := left.head?.getD row.stop

/- The cursor has come to where these tokens are left in front of the end, and it has not gone back. -/
structure Stands (row : Row) (place : Place) (left : List Token) : Prop where
  left : row.front.drop place.cursor = left
  within : place.cursor ≤ row.front.length
  ordered : (place.looked ++ [place.cursor]).Pairwise (· ≤ ·)

section
variable {row : Row} {place : Place} {left rest : List Token} {t : Token}

namespace Stands

theorem length (h : row.Stands place left) : place.cursor + left.length = row.front.length := by
  have within := h.within
  rw [← h.left, List.length_drop]
  omega

theorem inside (h : row.Stands place (t :: rest)) : t.kind ≠ .endOfInput :=
  row.goesOn t (List.mem_of_mem_drop (h.left ▸ List.mem_cons_self))

theorem found (h : row.Stands place left) : row.tokens[place.cursor]? = some (row.first left) := by
  have within := h.within
  unfold tokens first
  rw [← h.left, List.head?_drop]
  rcases Nat.lt_or_eq_of_le within with before | atStop
  · rw [List.getElem?_append_left before, List.getElem?_eq_getElem before]
    rfl
  · rw [atStop, List.getElem?_append_right (Nat.le_refl _), Nat.sub_self,
      List.getElem?_eq_none (Nat.le_refl _)]
    rfl

theorem look (h : row.Stands place left) : row.Stands place.look left where
  left := h.left
  within := h.within
  ordered := by
    refine List.pairwise_append.mpr ⟨h.ordered, List.pairwise_singleton _ _, ?_⟩
    intro i seen j here
    rw [List.mem_singleton.mp here]
    rcases List.mem_append.mp seen with before | last
    · exact (List.pairwise_append.mp h.ordered).2.2 i before _ List.mem_cons_self
    · exact Nat.le_of_eq (List.mem_singleton.mp last)

theorem pass (h : row.Stands place (t :: rest)) : row.Stands place.pass rest where
  left := by
    change row.front.drop (place.cursor + 1) = rest
    rw [← List.drop_drop, h.left]
    rfl
  within := by
    have length := h.length
    rw [List.length_cons] at length
    change place.cursor + 1 ≤ _
    omega
  ordered := by
    obtain ⟨before, -, last⟩ := List.pairwise_append.mp h.ordered
    refine List.pairwise_append.mpr ⟨before, List.pairwise_singleton _ _, ?_⟩
    intro i seen j here
    rw [List.mem_singleton.mp here]
    exact Nat.le_succ_of_le (last i seen _ List.mem_cons_self)

end Stands
end

/- Why a reader stops, and in front of which tokens, if the state had others in front of it. -/
def Stops (row : Row) (s : State) (left rest : List Token) : Stop → Prop
  | .fault fault => run row.stop.line s left = ⟨.error fault, rest⟩
  | _ => False

def Comes (row : Row) {α : Type} (s : State) (left rest : List Token) (next : α → State)
    (post : α → List Token → Prop) : Except Stop α → Prop
  | .ok a => run row.stop.line s left = run row.stop.line (next a) rest ∧ post a rest
  | .error stop => row.Stops s left rest stop

def Follows (row : Row) {α : Type} (m : Reader α) (s : State) (left : List Token) (next : α → State)
    (post : α → List Token → Prop) : Prop :=
  ∀ place, row.Stands place left → ∃ answer place' rest, m.run place = some (answer, place') ∧
    row.Stands place' rest ∧ rest.length ≤ left.length ∧ row.Comes s left rest next post answer

end Row

section
variable {α β : Type} {m : Reader α} {f : α → Reader β} {place place' : Place}

theorem bindRead {a : α} (h : m.run place = some (.ok a, place')) :
    (m >>= f).run place = (f a).run place' := by
  change (m.run place).bind _ = _
  rw [h]
  rfl

theorem bindStopped {stop : Stop} (h : m.run place = some (.error stop, place')) :
    (m >>= f).run place = some (.error stop, place') := by
  change (m.run place).bind _ = _
  rw [h]
  rfl

end

namespace Row
variable {row : Row} {α β : Type} {s s' : State} {left rest : List Token} {t : Token}
  {next : α → State} {last : β → State} {mid post : α → List Token → Prop} {after : β → List Token → Prop}
  {m : Reader α} {f : α → Reader β} {kind : TokenKind} {wanted : Wanted}

theorem Comes.like {answer : Except Stop α} {left' : List Token}
    (same : run row.stop.line s left = run row.stop.line s' left')
    (h : row.Comes s' left' rest next post answer) : row.Comes s left rest next post answer := by
  cases answer with
  | ok a => exact ⟨same.trans h.1, h.2⟩
  | error stop =>
    cases stop with
    | fault fault => exact same.trans h
    | _ => exact h

namespace Follows

theorem bind (first : row.Follows m s left next mid)
    (second : ∀ a rest, rest.length ≤ left.length → mid a rest → row.Follows (f a) (next a) rest last after) :
    row.Follows (m >>= f) s left last after := by
  intro place stands
  obtain ⟨answer, place', rest, read, stands', shorter, comes⟩ := first place stands
  cases answer with
  | ok a =>
    obtain ⟨same, holds⟩ := comes
    obtain ⟨answer, place'', rest', read', stands'', shorter', comes'⟩ :=
      second a rest shorter holds place' stands'
    exact ⟨answer, place'', rest', (bindRead read).trans read', stands'', shorter'.trans shorter,
      comes'.like same⟩
  | error stop => exact ⟨.error stop, place', rest, bindStopped read, stands', shorter, comes⟩

theorem pure {a : α} (same : run row.stop.line s left = run row.stop.line (next a) left)
    (holds : post a left) : row.Follows (pure a) s left next post :=
  fun place stands => ⟨.ok a, place, left, rfl, stands, Nat.le_refl _, same, holds⟩

theorem weaken (h : row.Follows m s left next mid)
    (weaker : ∀ a rest, rest.length ≤ left.length → mid a rest → post a rest) :
    row.Follows m s left next post := by
  intro place stands
  obtain ⟨answer, place', rest, read, stands', shorter, comes⟩ := h place stands
  refine ⟨answer, place', rest, read, stands', shorter, ?_⟩
  cases answer with
  | ok a => exact ⟨comes.1, weaker a rest shorter comes.2⟩
  | error stop => exact comes

theorem within (h : row.Follows m s left next fun _ _ => True) :
    row.Follows m s left next fun _ rest => rest.length ≤ left.length :=
  h.weaken fun _ _ shorter _ => shorter

/- A state that goes on in the same way. -/
theorem like (same : run row.stop.line s left = run row.stop.line s' left)
    (h : row.Follows m s' left next post) : row.Follows m s left next post := by
  intro place stands
  obtain ⟨answer, place', rest, read, stands', shorter, comes⟩ := h place stands
  exact ⟨answer, place', rest, read, stands', shorter, comes.like same⟩

end Follows

/-! Looking at a token, and passing it. -/

theorem peekRead (stands : row.Stands place left) :
    (peek row.tokens).run place = some (.ok (row.first left), place.look) := by
  have found := stands.found
  change (held row.tokens[place.cursor]?).run place.look = _
  rw [found]
  rfl

theorem advanceRead (stands : row.Stands place (t :: rest)) :
    (advance row.tokens).run place = some (.ok t, place.look.look.pass) := by
  have goesOn : decide (t.kind = .endOfInput) = false := decide_eq_false stands.inside
  have seen : (atEnd row.tokens).run place.look = some (.ok false, place.look.look) := by
    refine (bindRead (peekRead stands.look)).trans ?_
    exact congrArg (fun b => some (Except.ok b, _)) goesOn
  exact (bindRead (peekRead stands)).trans (bindRead seen)

namespace Follows
variable {g : Token → Reader β} {choice : Bool → Reader β} {found missing : Reader β}

theorem peek (h : row.Follows (g (row.first left)) s left last after) :
    row.Follows (peek row.tokens >>= g) s left last after := by
  intro place stands
  rw [bindRead (peekRead stands)]
  exact h place.look stands.look

theorem see (h : row.Follows (g t) s (t :: rest) last after) :
    row.Follows (Descent.peek row.tokens >>= g) s (t :: rest) last after :=
  .peek h

theorem check (yes : (row.first left).kind = kind → row.Follows (choice true) s left last after)
    (no : (row.first left).kind ≠ kind → row.Follows (choice false) s left last after) :
    row.Follows (check row.tokens kind >>= choice) s left last after := by
  unfold Descent.check
  rw [bind_assoc]
  refine .peek ?_
  rw [pure_bind]
  by_cases same : (row.first left).kind = kind
  · rw [decide_eq_true same]
    exact yes same
  · rw [decide_eq_false same]
    exact no same

theorem choose (yes : (row.first left).kind = kind → row.Follows found s left last after)
    (no : (row.first left).kind ≠ kind → row.Follows missing s left last after) :
    row.Follows (Descent.check row.tokens kind >>= fun b => if b = true then found else missing) s left
      last after :=
  .check yes no

theorem advance (fed : s.feed t = .ok s') (h : row.Follows (g t) s' rest last after) :
    row.Follows (advance row.tokens >>= g) s (t :: rest) last after := by
  intro place stands
  rw [bindRead (advanceRead stands)]
  obtain ⟨answer, place', left', read, stands', shorter, comes⟩ := h _ stands.look.look.pass
  have same : run row.stop.line s (t :: rest) = run row.stop.line s' rest := by rw [run, fed]
  exact ⟨answer, place', left', read, stands', Nat.le_succ_of_le shorter, comes.like same⟩

theorem again {word : Keyword} (seen : t.kind = .keyword word) (fed : s.feed t = .ok s')
    (h : row.Follows (g t) s' rest last after) :
    row.Follows (again row.tokens word >>= g) s (t :: rest) last after := by
  unfold Descent.again
  rw [bind_assoc]
  refine .check (fun _ => ?_) fun other => absurd seen other
  rw [if_pos rfl]
  exact .advance fed h

theorem take (apart : kind ≠ .endOfInput)
    (yes : ∀ t rest, left = t :: rest → t.kind = kind →
      ∃ s', s.feed t = .ok s' ∧ row.Follows found s' rest last after)
    (no : (row.first left).kind ≠ kind → row.Follows missing s left last after) :
    row.Follows (take row.tokens kind >>= fun b => if b = true then found else missing) s left last
      after := by
  unfold Descent.take
  rw [bind_assoc]
  refine .check (fun same => ?_) fun other => ?_
  · cases left with
    | nil => exact absurd (same.symm.trans row.ends) apart
    | cons t rest =>
      obtain ⟨s', fed, h⟩ := yes t rest rfl same
      rw [if_pos rfl, bind_assoc]
      exact .advance fed h
  · rw [if_neg Bool.false_ne_true, pure_bind]
    exact no other

end Follows

/- The state has something else in mind for the next token, or for the end. -/
def Refuses (s : State) (wanted : Wanted) : List Token → Prop
  | [] => s.finish = .error wanted
  | t :: _ => s.feed t = .error (.unexpected wanted)

namespace Follows

theorem refuse (h : Refuses s wanted left) : row.Follows (refuse row.tokens wanted) s left next post := by
  refine .peek fun place stands => ?_
  refine ⟨_, place, left, rfl, stands, Nat.le_refl _, ?_⟩
  cases left with
  | nil =>
    change run row.stop.line s [] = ⟨.error ⟨_, if row.stop.kind = .endOfInput then _ else _, _⟩, []⟩
    rw [run, show s.finish = _ from h, if_pos row.ends]
    rfl
  | cons t rest =>
    change run row.stop.line s (t :: rest) =
      ⟨.error ⟨_, if t.kind = .endOfInput then _ else _, _⟩, t :: rest⟩
    rw [run, show s.feed t = _ from h, if_neg stands.inside]
    rfl

theorem consume {taken : Token → State} (apart : kind ≠ .endOfInput)
    (takes : ∀ t rest, left = t :: rest → t.kind = kind → s.feed t = .ok (taken t))
    (refuses : (row.first left).kind ≠ kind → Refuses s wanted left) :
    row.Follows (consume row.tokens kind wanted) s left taken
      fun t rest => left = t :: rest ∧ t.kind = kind := by
  refine .choose (fun same => ?_) fun other => .refuse (refuses other)
  cases left with
  | nil => exact absurd (same.symm.trans row.ends) apart
  | cons t rest =>
    rw [← bind_pure (Descent.advance row.tokens)]
    exact .advance (takes t rest rfl same) (.pure rfl ⟨rfl, same⟩)

end Follows

/- A phase that requires a token of one kind, not the end of input, and does not leave without one. -/
structure Requires (s : State) (kind : TokenKind) (wanted : Wanted)
    (taken : Token → Except ParseCause State) : Prop where
  apart : kind ≠ .endOfInput
  closed : s.phase.isOpen = false
  unfinished : s.missing? = some wanted
  shifts : ∀ t, s.shift t = if t.kind = kind then taken t else .error (.unexpected wanted)

theorem Requires.takes {taken : Token → Except ParseCause State} (h : Requires s kind wanted taken)
    (same : t.kind = kind) : s.feed t = taken t :=
  (State.feedClosed h.closed t).trans ((h.shifts t).trans (if_pos same))

theorem Requires.refuses {taken : Token → Except ParseCause State} (h : Requires s kind wanted taken)
    (other : (row.first left).kind ≠ kind) : Refuses s wanted left := by
  cases left with
  | nil =>
    unfold Refuses State.finish
    rw [State.settleClosed h.closed, h.unfinished]
  | cons t rest => exact (State.feedClosed h.closed t).trans ((h.shifts t).trans (if_neg other))

/- What is wrong with a step number is not that there is none. -/
theorem stepNumberPasses {cause : ParseCause} (h : State.stepNumber t = .error cause) (wanted : Wanted) :
    cause ≠ .unexpected wanted := by
  rintro rfl
  unfold State.stepNumber at h
  split at h <;> cases h

namespace Follows
variable {g : Token → Reader β} {found missing : Reader β}

theorem leaf {taken : Token → State} (requires : Requires s kind wanted fun t => .ok (taken t))
    (h : ∀ t rest, rest.length < left.length → row.Follows (g t) (taken t) rest last after) :
    row.Follows (Descent.consume row.tokens kind wanted >>= g) s left last after := by
  refine .bind (.consume requires.apart (fun t _ _ same => requires.takes same) requires.refuses) ?_
  rintro t rest _ ⟨rfl, _⟩
  exact h t rest (Nat.lt_succ_self _)

/- A token that has been passed and is at fault. -/
theorem blame {cause : ParseCause} (fed : s.feed t = .error cause)
    (passes : ∀ wanted, cause ≠ .unexpected wanted)
    (blames : g t = throw (.fault ⟨cause, some t.lexeme, t.line⟩)) :
    row.Follows (Descent.advance row.tokens >>= g) s (t :: rest) last after := by
  intro place stands
  rw [bindRead (advanceRead stands), blames]
  refine ⟨_, _, rest, rfl, stands.look.look.pass, Nat.le_succ _, ?_⟩
  change run row.stop.line s (t :: rest) = _
  rw [run, fed]
  cases cause with
  | unexpected wanted => exact absurd rfl (passes wanted)
  | _ => rfl

theorem number {counted : Int → State}
    (requires : Requires s .number wanted fun t => (State.stepNumber t).map counted) :
    row.Follows (Descent.stepNumber row.tokens wanted) s left counted fun _ _ => True := by
  unfold Descent.stepNumber Descent.consume
  rw [bind_assoc]
  refine .check (fun same => ?_) fun other => ?_
  · cases left with
    | nil => exact absurd (same.symm.trans row.ends) requires.apart
    | cons t rest =>
      have fed : s.feed t = (State.stepNumber t).map counted := requires.takes same
      rw [if_pos rfl]
      cases counts : State.stepNumber t with
      | ok id =>
        rw [counts] at fed
        refine .advance fed ?_
        rw [counts]
        exact .pure rfl trivial
      | error cause =>
        rw [counts] at fed
        exact .blame fed (stepNumberPasses counts) (by rw [counts])
  · rw [if_neg Bool.false_ne_true]
    have refused : row.Follows (Descent.refuse row.tokens wanted) s left (fun _ => s)
        fun (_ : Token) _ => False := .refuse (requires.refuses other)
    exact refused.bind fun _ _ _ none => none.elim

/- The end, or a token. -/
theorem atEnd (yes : left = [] → row.Follows found s left last after)
    (no : ∀ t rest, left = t :: rest → row.Follows missing s left last after) :
    row.Follows (Descent.atEnd row.tokens >>= fun b => if b = true then found else missing) s left last
      after := by
  refine .choose (fun same => ?_) fun other => ?_
  · cases left with
    | nil => exact yes rfl
    | cons t rest => exact fun place stands => absurd same stands.inside
  · cases left with
    | nil => exact absurd row.ends other
    | cons t rest => exact no t rest rfl

end Follows

/-! Phases that may be left without a further token. -/

variable {quiet further : State} {line : Nat}

theorem runAlike (fed : ∀ t ∈ left.head?, s.feed t = s'.feed t)
    (finished : left = [] → s.finish = s'.finish) : run line s left = run line s' left := by
  cases left with
  | nil => rw [run, run, finished rfl]
  | cons t rest => rw [run, run, fed t rfl]

theorem runQuiet (settles : s.settle = quiet.settle)
    (same : ∀ t ∈ left.head?, s.extend? t = quiet.extend? t) : run line s left = run line quiet left := by
  refine runAlike (fun t next => ?_) fun _ => ?_
  · unfold State.feed
    rw [same t next, settles]
  · rw [← s.finishSettled, settles, quiet.finishSettled]

theorem runSettled (loose : ∀ t ∈ left.head?, s.extend? t = none) :
    run line s left = run line s.settle left := by
  refine runQuiet (State.settleClosed s.settleIsClosed).symm fun t next => ?_
  rw [loose t next, State.extendClosed s.settleIsClosed]

theorem firstNot (other : (row.first left).kind ≠ kind) : ∀ t ∈ left.head?, t.kind ≠ kind := by
  cases left with
  | nil => exact fun u none => absurd none (Option.not_mem_none u)
  | cons t rest => exact fun u same => Option.some.inj same ▸ other

/- A token of one kind continues the state, and all others are taken as a quiet state does. -/
theorem Follows.continued {found missing : Reader β} (apart : kind ≠ .endOfInput)
    (goes : ∀ t, s.extend? t = if t.kind = kind then some further else quiet.extend? t)
    (settles : s.settle = quiet.settle)
    (yes : ∀ t rest, left = t :: rest → row.Follows found further rest last after)
    (no : (row.first left).kind ≠ kind → row.Follows missing quiet left last after) :
    row.Follows (Descent.take row.tokens kind >>= fun b => if b = true then found else missing) s left
      last after := by
  refine .take apart (fun t rest split same => ?_) fun other => .like (runQuiet settles ?_) (no other)
  · exact ⟨further, State.feedExtended ((goes t).trans (if_pos same)), yes t rest split⟩
  · exact fun t next => (goes t).trans (if_neg (firstNot other t next))

end Row
end Stepwise.Descent
