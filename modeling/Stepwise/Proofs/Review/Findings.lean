import Mathlib.Tactic.ByContra
import Stepwise.Review

/-! When a review has something to say. A review without errors has every name declared in time and
every reference placed elsewhere in the walk; and each error, like each warning of a reference to a
later step, is traced back to the mention or the reference that it is about. -/
namespace Stepwise

/- The warning of a reference to a step that comes later in the walk. -/
def FindingCause.isFuture : FindingCause → Bool
  | .futureStep .. => true
  | _ => false

def FindingCause.isAlarm (c : FindingCause) : Bool := c.isError || c.isFuture

def FindingCause.isDuplicate : FindingCause → Bool
  | .duplicateStep .. => true
  | _ => false

def FindingCause.isUnknown : FindingCause → Bool
  | .unknownCommand .. => true
  | _ => false

namespace Program

variable {p : Program} {commands : List String} {place index : Nat} {w : Workflow} {s : Step}
  {d : Declaration} {e : Expr} {f : Finding}

def declared (p : Program) : List String := p.declarations.map Declaration.name

theorem referenceMissing {id : Int} {workflow : String} {target : Int}
    (h : p.firstPlace? target = none) :
    p.referenceCause? place id workflow target = some (.missingStep id workflow target) := by
  simp only [referenceCause?, h]

theorem referenceOwn {id : Int} {workflow : String} {target : Int}
    (h : p.firstPlace? target = some place) :
    p.referenceCause? place id workflow target = some (.ownResult id workflow) := by
  simp only [referenceCause?, h, if_true]

theorem referenceFuture {id : Int} {workflow : String} {target : Int} {found : Nat}
    (h : p.firstPlace? target = some found) (later : place < found) :
    p.referenceCause? place id workflow target = some (.futureStep id workflow target) := by
  have apart : found ≠ place := by omega
  simp only [referenceCause?, h, if_neg apart, if_pos later]

theorem referenceEarlier {id : Int} {workflow : String} {target : Int} {found : Nat}
    (h : p.firstPlace? target = some found) (earlier : found < place) :
    p.referenceCause? place id workflow target = none := by
  have apart : found ≠ place := by omega
  have behind : ¬ place < found := by omega
  simp only [referenceCause?, h, if_neg apart, if_neg behind]

/- The names that are bound when a declaration comes to be evaluated. -/
def namesBefore (p : Program) (index : Nat) : List String :=
  (p.declarations.take index).map Declaration.name

theorem declarationFinding : f ∈ p.declarationFindings ↔
    ∃ d index, p.declarations[index]? = some d ∧
      ((∃ m ∈ d.value.mentions, m.name ∉ p.namesBefore index ∧
          f = ⟨.declaration index, .usedBeforeDeclared d.name m.name, m.line <|> d.line⟩) ∨
        ∃ r ∈ d.value.references,
          f = ⟨.declaration index, .stepBeforeRun d.name r.step, r.line <|> d.line⟩) := by
  simp only [declarationFindings, namesBefore, List.mem_flatMap, Prod.exists,
    List.mem_zipIdx_iff_getElem?, List.mem_append, List.mem_map, List.mem_filter, decide_eq_true_eq,
    eq_comm (b := f), and_assoc]

theorem expressionFinding : f ∈ p.expressionFindings place w s e ↔
    (∃ m ∈ e.mentions, m.name ∉ p.declared ∧
      f = ⟨.step place, .undeclared s.id w.name m.name, m.line <|> s.line⟩) ∨
    ∃ r ∈ e.references, ∃ cause, p.referenceCause? place s.id w.name r.step = some cause ∧
      f = ⟨.step place, cause, s.line⟩ := by
  simp only [expressionFindings, declared, List.mem_append, List.mem_map, List.mem_filter,
    List.mem_filterMap, Option.map_eq_some_iff, decide_eq_true_eq, eq_comm (b := f), and_assoc]

theorem stepFinding : f ∈ p.stepFindings commands ↔
    ∃ w s place, p.walk[place]? = some (w, s) ∧
      (f ∈ commandFindings commands place w s ∨
        ∃ e ∈ s.expressions, f ∈ p.expressionFindings place w s e) := by
  simp only [stepFindings, List.mem_flatMap, Prod.exists, List.mem_zipIdx_iff_getElem?,
    List.mem_append]

/- The expression of a declaration is in order: it names only what is bound before it, and no step. -/
def DeclarationClear (p : Program) (index : Nat) (d : Declaration) : Prop :=
  (∀ m ∈ d.value.mentions, m.name ∈ p.namesBefore index) ∧ d.value.references = []

/- An expression of a step is in order: its names are declared, and each of its references is to a
step whose first place in the walk is another. -/
def ExpressionClear (p : Program) (place : Nat) (e : Expr) : Prop :=
  (∀ m ∈ e.mentions, m.name ∈ p.declared) ∧
  ∀ r ∈ e.references, ∃ first, p.firstPlace? r.step = some first ∧ first ≠ place

theorem declarationClear (clean : ∀ f ∈ p.findings commands, f.cause.isError = false)
    (at_ : p.declarations[index]? = some d) : p.DeclarationClear index d := by
  have quiet : ∀ f ∈ p.declarationFindings, f.cause.isError = false := by
    intro f inside
    apply clean
    simp only [findings, List.mem_append, inside, or_true, true_or]
  constructor
  · intro m inside
    by_contra unbound
    have error := quiet _ (declarationFinding.mpr ⟨d, index, at_, .inl ⟨m, inside, unbound, rfl⟩⟩)
    cases error
  · rw [List.eq_nil_iff_forall_not_mem]
    intro r inside
    have error := quiet _ (declarationFinding.mpr ⟨d, index, at_, .inr ⟨r, inside, rfl⟩⟩)
    cases error

theorem expressionFound (at_ : p.walk[place]? = some (w, s)) (owned : e ∈ s.expressions)
    (inside : f ∈ p.expressionFindings place w s e) : f ∈ p.findings commands := by
  have found : f ∈ p.stepFindings commands :=
    stepFinding.mpr ⟨w, s, place, at_, .inr ⟨e, owned, inside⟩⟩
  simp only [findings, List.mem_append, found, or_true]

theorem expressionClear (clean : ∀ f ∈ p.findings commands, f.cause.isError = false)
    (at_ : p.walk[place]? = some (w, s)) (owned : e ∈ s.expressions) :
    p.ExpressionClear place e := by
  have quiet : ∀ f ∈ p.expressionFindings place w s e, f.cause.isError = false :=
    fun f inside => clean f (expressionFound at_ owned inside)
  constructor
  · intro m inside
    by_contra missing
    have error := quiet _ (expressionFinding.mpr (.inl ⟨m, inside, missing, rfl⟩))
    cases error
  · intro r inside
    have silent : ∀ cause, p.referenceCause? place s.id w.name r.step = some cause →
        cause.isError = false := fun cause h =>
      quiet _ (expressionFinding.mpr (.inr ⟨r, inside, cause, h, rfl⟩))
    cases h : p.firstPlace? r.step with
    | none => cases silent _ (referenceMissing h)
    | some first =>
      refine ⟨first, rfl, ?_⟩
      rintro rfl
      cases silent _ (referenceOwn h)

/- Without a warning of a later step, each reference points back in the walk. -/
theorem expressionBackward (clean : ∀ f ∈ p.findings commands, f.cause.isError = false)
    (past : ∀ f ∈ p.findings commands, f.cause.isFuture = false)
    (at_ : p.walk[place]? = some (w, s)) (owned : e ∈ s.expressions) :
    ∀ r ∈ e.references, ∃ first, p.firstPlace? r.step = some first ∧ first < place := by
  intro r inside
  obtain ⟨first, found, apart⟩ := (expressionClear clean at_ owned).2 r inside
  refine ⟨first, found, ?_⟩
  by_contra behind
  have later : place < first := by omega
  have warned := past _ (expressionFound at_ owned (expressionFinding.mpr
    (.inr ⟨r, inside, _, referenceFuture found later, rfl⟩)))
  cases warned

theorem duplicateSilent (inside : f ∈ p.duplicateFindings) : f.cause.isAlarm = false := by
  obtain ⟨⟨⟨w, s⟩, place⟩, _, made⟩ := List.mem_filterMap.mp inside
  dsimp only at made
  split at made
  · split at made
    · cases made; rfl
    · cases made
  · cases made

theorem emptySilent (inside : f ∈ p.emptyFindings) : f.cause.isAlarm = false := by
  obtain ⟨⟨w, index⟩, _, made⟩ := List.mem_filterMap.mp inside
  dsimp only at made
  split at made
  · cases made; rfl
  · cases made

theorem commandSilent (inside : f ∈ commandFindings commands place w s) :
    f.cause.isAlarm = false := by
  cases s with
  | command id name arguments line contentLine =>
    simp only [commandFindings] at inside
    split at inside
    · cases inside
    · rw [List.mem_singleton.mp inside]; rfl
  | _ => cases inside

theorem referencePlain {id : Int} {workflow : String} {target : Int} {cause : FindingCause}
    (h : p.referenceCause? place id workflow target = some cause) :
    cause.isDuplicate = false ∧ cause.isUnknown = false := by
  unfold referenceCause? at h
  split at h
  · cases h
    exact ⟨rfl, rfl⟩
  · split at h
    · cases h
      exact ⟨rfl, rfl⟩
    · split at h <;> cases h
      exact ⟨rfl, rfl⟩

/- Apart from repeated numbers and from commands, a finding is about a declaration, a workflow or an
expression. -/
theorem otherFinding
    (inside : f ∈ p.declarationFindings ++ p.emptyFindings ++ p.stepFindings commands) :
    (∃ place w s, p.walk[place]? = some (w, s) ∧ f ∈ commandFindings commands place w s) ∨
      f.cause.isDuplicate = false ∧ f.cause.isUnknown = false := by
  simp only [List.mem_append] at inside
  rcases inside with (declaration | hollow) | step
  · obtain ⟨d, index, _, ⟨m, _, _, rfl⟩ | ⟨r, _, rfl⟩⟩ := declarationFinding.mp declaration
    · exact .inr ⟨rfl, rfl⟩
    · exact .inr ⟨rfl, rfl⟩
  · obtain ⟨⟨w, index⟩, _, made⟩ := List.mem_filterMap.mp hollow
    dsimp only at made
    split at made
    · cases made
      exact .inr ⟨rfl, rfl⟩
    · cases made
  · obtain ⟨w, s, place, at_, command | ⟨e, _, expression⟩⟩ := stepFinding.mp step
    · exact .inl ⟨place, w, s, at_, command⟩
    · rcases expressionFinding.mp expression with ⟨m, _, _, rfl⟩ | ⟨r, _, cause, caused, rfl⟩
      · exact .inr ⟨rfl, rfl⟩
      · exact .inr (referencePlain caused)

/- What an alarm is about: on a declaration, a name that is not yet bound or any step at all; on a
step, a name that is nowhere declared or a reference to a step that comes first at this place,
later, or not at all. -/
theorem alarmTraced (inside : f ∈ p.findings commands) (alarm : f.cause.isAlarm = true) :
    (∃ d index, p.declarations[index]? = some d ∧
      ((∃ m ∈ d.value.mentions, m.name ∉ p.namesBefore index) ∨ ∃ r, r ∈ d.value.references)) ∨
    ∃ w s place, p.walk[place]? = some (w, s) ∧ f.subject = .step place ∧
      ∃ e ∈ s.expressions, (∃ m ∈ e.mentions, m.name ∉ p.declared) ∨
        ∃ r ∈ e.references, ∀ first, p.firstPlace? r.step = some first → place ≤ first := by
  simp only [findings, List.mem_append] at inside
  rcases inside with ((duplicate | declaration) | hollow) | step
  · rw [duplicateSilent duplicate] at alarm; cases alarm
  · obtain ⟨d, index, at_, ⟨m, mentioned, unbound, rfl⟩ | ⟨r, referred, rfl⟩⟩ :=
      declarationFinding.mp declaration
    · exact .inl ⟨d, index, at_, .inl ⟨m, mentioned, unbound⟩⟩
    · exact .inl ⟨d, index, at_, .inr ⟨r, referred⟩⟩
  · rw [emptySilent hollow] at alarm; cases alarm
  · obtain ⟨w, s, place, at_, command | ⟨e, owned, expression⟩⟩ := stepFinding.mp step
    · rw [commandSilent command] at alarm; cases alarm
    · refine .inr ⟨w, s, place, at_, ?_⟩
      rcases expressionFinding.mp expression with ⟨m, mentioned, missing, rfl⟩ |
        ⟨r, referred, cause, caused, rfl⟩
      · exact ⟨rfl, e, owned, .inl ⟨m, mentioned, missing⟩⟩
      · refine ⟨rfl, e, owned, .inr ⟨r, referred, fun first found => ?_⟩⟩
        by_contra earlier
        rw [referenceEarlier found (by omega)] at caused
        cases caused

end Program
end Stepwise
