import Stepwise.Expr.Evaluation
import Stepwise.Proofs.Table

/-! What an evaluation reads. The variables and the references of an expression are exactly what its
value hangs on: success finds all of them in the tables, a lookup error names one that is missing,
and tables that agree on them give the same outcome. -/
namespace Stepwise.Expr

structure Resolved (t : Tables) (e : Expr) : Prop where
  names : ∀ m ∈ e.mentions, m.name ∈ t.environment.keys
  steps : ∀ r ∈ e.references, r.step ∈ t.results.keys

structure SameReads (s t : Tables) (e : Expr) : Prop where
  names : ∀ m ∈ e.mentions, s.environment.get? m.name = t.environment.get? m.name
  steps : ∀ r ∈ e.references, s.results.get? r.step = t.results.get? r.step

theorem resolvedBinary {t left operator right line} (a : Resolved t left) (b : Resolved t right) :
    Resolved t (.binary left operator right line) where
  names := fun m inside => (List.mem_append.mp inside).elim (a.names m) (b.names m)
  steps := fun r inside => (List.mem_append.mp inside).elim (a.steps r) (b.steps r)

theorem resolvedLeft {t left operator right line}
    (h : Resolved t (.binary left operator right line)) : Resolved t left :=
  ⟨fun m inside => h.names m (List.mem_append_left _ inside),
    fun r inside => h.steps r (List.mem_append_left _ inside)⟩

theorem resolvedRight {t left operator right line}
    (h : Resolved t (.binary left operator right line)) : Resolved t right :=
  ⟨fun m inside => h.names m (List.mem_append_right _ inside),
    fun r inside => h.steps r (List.mem_append_right _ inside)⟩

theorem sameReadsLeft {s t left operator right line}
    (h : SameReads s t (.binary left operator right line)) : SameReads s t left :=
  ⟨fun m inside => h.names m (List.mem_append_left _ inside),
    fun r inside => h.steps r (List.mem_append_left _ inside)⟩

theorem sameReadsRight {s t left operator right line}
    (h : SameReads s t (.binary left operator right line)) : SameReads s t right :=
  ⟨fun m inside => h.names m (List.mem_append_right _ inside),
    fun r inside => h.steps r (List.mem_append_right _ inside)⟩

theorem evalCongr {s t : Tables} {e : Expr} (h : SameReads s t e) : e.eval s = e.eval t := by
  induction e with
  | text value line => rfl
  | number value line => rfl
  | name word line =>
    have same := h.names ⟨word, line⟩ (mentionsName.mpr rfl)
    simp only [eval, same]
  | binary left operator right line ihLeft ihRight =>
    simp only [eval, ihLeft (sameReadsLeft h), ihRight (sameReadsRight h)]
  | property object part line ih =>
    have inner : SameReads s t object := ⟨h.names, h.steps⟩
    simp only [eval, ih inner]
  | result step part line =>
    have same := h.steps ⟨step, part, line⟩ (referencesResult.mpr rfl)
    simp only [eval, same]
  | absent => rfl

/- Both operands of a binary expression are evaluated before its operator is looked at. -/
theorem evalBinaryOk {t left operator right line value}
    (h : (Expr.binary left operator right line).eval t = .ok value) :
    ∃ a b, left.eval t = .ok a ∧ right.eval t = .ok b ∧ operator = "+" ∧ value = a ++ b := by
  unfold eval at h
  cases ha : left.eval t with
  | error x => simp [ha] at h
  | ok a =>
    cases hb : right.eval t with
    | error x => simp [ha, hb] at h
    | ok b =>
      simp only [ha, hb] at h
      split at h
      · cases h
        exact ⟨a, b, rfl, rfl, by assumption, rfl⟩
      · split at h <;> cases h

theorem evalBinaryError {t left operator right line x}
    (h : (Expr.binary left operator right line).eval t = .error x) :
    left.eval t = .error x ∨
    (∃ a, left.eval t = .ok a) ∧ right.eval t = .error x ∨
    (∃ a b, left.eval t = .ok a ∧ right.eval t = .ok b) ∧
      ((∃ text, x = .unknownOperator operator text) ∨ x = .notRenderable) := by
  unfold eval at h
  cases ha : left.eval t with
  | error y => simp only [ha] at h; exact .inl h
  | ok a =>
    cases hb : right.eval t with
    | error y => simp only [ha, hb] at h; exact .inr (.inl ⟨⟨a, rfl⟩, h⟩)
    | ok b =>
      simp only [ha, hb] at h
      split at h
      · cases h
      · split at h
        · cases h; exact .inr (.inr ⟨⟨a, b, rfl, rfl⟩, .inl ⟨_, rfl⟩⟩)
        · cases h; exact .inr (.inr ⟨⟨a, b, rfl, rfl⟩, .inr rfl⟩)

theorem evalResolved {t : Tables} {e : Expr} {value : String} (h : e.eval t = .ok value) :
    Resolved t e := by
  induction e generalizing value with
  | text value line => exact ⟨by simp [mentions], by simp [references]⟩
  | number value line => exact ⟨by simp [mentions], by simp [references]⟩
  | name word line =>
    refine ⟨fun m inside => ?_, by simp [references]⟩
    obtain rfl := mentionsName.mp inside
    rw [← Table.getSome]
    unfold eval at h
    split at h
    · exact ⟨_, by assumption⟩
    · cases h
  | binary left operator right line ihLeft ihRight =>
    obtain ⟨a, b, ha, hb, _, _⟩ := evalBinaryOk h
    exact resolvedBinary (ihLeft ha) (ihRight hb)
  | property object part line ih =>
    obtain ⟨a, ha⟩ := evalPropertyOk h
    exact ⟨(ih ha).names, (ih ha).steps⟩
  | result step part line =>
    refine ⟨by simp [mentions], fun r inside => ?_⟩
    obtain rfl := referencesResult.mp inside
    rw [← Table.getSome]
    unfold eval at h
    split at h
    · exact ⟨_, by assumption⟩
    · cases h
  | absent => cases h

theorem evalUndefined {t : Tables} {e : Expr} {name : String}
    (h : e.eval t = .error (.undefinedVariable name)) :
    ∃ m ∈ e.mentions, m.name = name ∧ name ∉ t.environment.keys := by
  induction e with
  | text value line => cases h
  | number value line => cases h
  | name word line =>
    unfold eval at h
    split at h
    · cases h
    · rename_i missing
      cases h
      exact ⟨⟨name, line⟩, mentionsName.mpr rfl, rfl, (Table.getNone _ _).mp missing⟩
  | binary left operator right line ihLeft ihRight =>
    rcases evalBinaryError h with first | ⟨_, second⟩ | ⟨_, ⟨text, other⟩ | other⟩
    · obtain ⟨m, inside, found⟩ := ihLeft first
      exact ⟨m, List.mem_append_left _ inside, found⟩
    · obtain ⟨m, inside, found⟩ := ihRight second
      exact ⟨m, List.mem_append_right _ inside, found⟩
    · cases other
    · cases other
  | property object part line ih => exact ih (evalPropertyError h)
  | result step part line =>
    unfold eval at h
    split at h <;> cases h
  | absent => cases h

theorem evalNotFound {t : Tables} {e : Expr} {step : Int}
    (h : e.eval t = .error (.stepNotFound step)) :
    ∃ r ∈ e.references, r.step = step ∧ step ∉ t.results.keys := by
  induction e with
  | text value line => cases h
  | number value line => cases h
  | name word line =>
    unfold eval at h
    split at h <;> cases h
  | binary left operator right line ihLeft ihRight =>
    rcases evalBinaryError h with first | ⟨_, second⟩ | ⟨_, ⟨text, other⟩ | other⟩
    · obtain ⟨r, inside, found⟩ := ihLeft first
      exact ⟨r, List.mem_append_left _ inside, found⟩
    · obtain ⟨r, inside, found⟩ := ihRight second
      exact ⟨r, List.mem_append_right _ inside, found⟩
    · cases other
    · cases other
  | property object part line ih => exact ih (evalPropertyError h)
  | result id part line =>
    unfold eval at h
    split at h
    · cases h
    · rename_i missing
      cases h
      exact ⟨⟨step, part, line⟩, referencesResult.mpr rfl, rfl, (Table.getNone _ _).mp missing⟩
  | absent => cases h

/- A condition is a comparison of two values or the truth of one. Either way it reads what its
expression reads, and an error of it is the error that plain evaluation meets first. -/
theorem conditionCases (t : Tables) (e : Expr) :
    e.condition t = (e.eval t).map isTruthy ∨
    ∃ left operator right line c, e = .binary left operator right line ∧
      Comparison.ofSymbol? operator = some c ∧
      e.condition t = (do let a ← left.eval t; let b ← right.eval t; return c.holds a b) := by
  cases e with
  | binary left operator right line =>
    cases hc : Comparison.ofSymbol? operator with
    | none => exact .inl (by simp only [condition, hc])
    | some c => exact .inr ⟨left, operator, right, line, c, rfl, hc, by simp only [condition, hc]⟩
  | _ => exact .inl rfl

theorem conditionResolved {t : Tables} {e : Expr} {taken : Bool} (h : e.condition t = .ok taken) :
    Resolved t e := by
  rcases conditionCases t e with plain | ⟨left, operator, right, line, c, rfl, _, compared⟩
  · rw [plain] at h
    cases he : e.eval t with
    | error x => simp [he, Except.map] at h
    | ok value => exact evalResolved he
  · rw [compared] at h
    cases ha : left.eval t with
    | error x => simp [ha, bind, Except.bind] at h
    | ok a =>
      cases hb : right.eval t with
      | error x => simp [ha, hb, bind, Except.bind] at h
      | ok b => exact resolvedBinary (evalResolved ha) (evalResolved hb)

theorem conditionError {t : Tables} {e : Expr} {x : EvalError} (h : e.condition t = .error x) :
    e.eval t = .error x := by
  rcases conditionCases t e with plain | ⟨left, operator, right, line, c, rfl, _, compared⟩
  · rw [plain] at h
    cases he : e.eval t with
    | error y => simpa [he, Except.map] using h
    | ok value => simp [he, Except.map] at h
  · rw [compared] at h
    cases ha : left.eval t with
    | error y => simpa [eval, ha, bind, Except.bind] using h
    | ok a =>
      cases hb : right.eval t with
      | error y => simpa [eval, ha, hb, bind, Except.bind] using h
      | ok b => simp [ha, hb, bind, Except.bind, pure, Except.pure] at h

theorem conditionPlain {t : Tables} {e : Expr} (plain : ∀ left operator right line,
    e = .binary left operator right line → Comparison.ofSymbol? operator = none) :
    e.condition t = (e.eval t).map isTruthy := by
  rcases conditionCases t e with value | ⟨left, operator, right, line, c, same, compares, _⟩
  · exact value
  · rw [plain left operator right line same] at compares
    cases compares

/- Whether it is compared or not, what stands on the left is evaluated first. -/
theorem conditionLeft {t left operator right line x} (h : left.eval t = .error x) :
    (Expr.binary left operator right line).condition t = .error x := by
  cases compares : Comparison.ofSymbol? operator with
  | none => simp [condition, compares, eval, h, Except.map]
  | some c => simp [condition, compares, h, bind, Except.bind]

theorem conditionCompared {t left operator right line a b c}
    (compares : Comparison.ofSymbol? operator = some c) (first : left.eval t = .ok a)
    (second : right.eval t = .ok b) :
    (Expr.binary left operator right line).condition t = compare a operator b := by
  simp [condition, compare, compares, first, second, bind, Except.bind, pure, Except.pure]

theorem conditionCongr {s t : Tables} {e : Expr} (h : SameReads s t e) :
    e.condition s = e.condition t := by
  cases e with
  | binary left operator right line =>
    unfold condition
    simp only [evalCongr h, evalCongr (sameReadsLeft h), evalCongr (sameReadsRight h)]
  | _ => simp only [condition, evalCongr h]

theorem evalAllResolved {t : Tables} {es : List Expr} {values : List String}
    (h : evalAll t es = .ok values) : ∀ e ∈ es, Resolved t e := by
  induction es generalizing values with
  | nil => simp
  | cons e rest ih =>
    unfold evalAll at h
    cases he : e.eval t with
    | error x => simp [he, bind, Except.bind] at h
    | ok value =>
      cases hr : evalAll t rest with
      | error x => simp [he, hr, bind, Except.bind] at h
      | ok others =>
        intro d inside
        rcases List.mem_cons.mp inside with rfl | later
        · exact evalResolved he
        · exact ih hr d later

theorem evalAllError {t : Tables} {es : List Expr} {x : EvalError}
    (h : evalAll t es = .error x) : ∃ e ∈ es, e.eval t = .error x := by
  induction es with
  | nil => cases h
  | cons e rest ih =>
    unfold evalAll at h
    cases he : e.eval t with
    | error y =>
      have same : y = x := by simpa [he, bind, Except.bind] using h
      exact ⟨e, List.mem_cons_self, same ▸ he⟩
    | ok value =>
      cases hr : evalAll t rest with
      | error y =>
        have same : y = x := by simpa [he, hr, bind, Except.bind] using h
        obtain ⟨d, inside, found⟩ := ih (same ▸ hr)
        exact ⟨d, List.mem_cons_of_mem _ inside, found⟩
      | ok others => simp [he, hr, bind, Except.bind, pure, Except.pure] at h

theorem evalAllCongr {s t : Tables} {es : List Expr} (h : ∀ e ∈ es, SameReads s t e) :
    evalAll s es = evalAll t es := by
  induction es with
  | nil => rfl
  | cons e rest ih =>
    have head := evalCongr (h e List.mem_cons_self)
    have tail := ih fun d inside => h d (List.mem_cons_of_mem _ inside)
    simp only [evalAll, head, tail]

end Stepwise.Expr
