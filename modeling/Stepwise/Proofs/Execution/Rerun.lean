import Stepwise.Proofs.Execution.Course
import Stepwise.Proofs.Execution.Depth

/-! Runs on the tables that an earlier run has left behind. Such a run overwrites, key by key, what
stands there already; what it has not yet come to still holds the earlier end. It reads nothing that
it has not written itself, up to the place where the earlier run failed, and there the two tables
are one. -/
namespace Stepwise

namespace Table

universe u v
variable {α : Type u} {β : Type v} [DecidableEq α] {base t s : Table α β}

/- The table `base` with the values of `t` written over its own. -/
structure Overlay (base t s : Table α β) : Prop where
  keys : s.keys = base.keys
  written : ∀ key ∈ t.keys, s.get? key = t.get? key
  kept : ∀ key, key ∉ t.keys → s.get? key = base.get? key

namespace Overlay

theorem start (base : Table α β) : Overlay base empty base :=
  ⟨rfl, fun _ inside => absurd inside List.not_mem_nil, fun _ _ => rfl⟩

theorem whole (h : Overlay base base s) : s = base := by
  refine ofLookup h.keys fun key => ?_
  by_cases inside : key ∈ base.keys
  · exact h.written key inside
  · exact h.kept key inside

theorem put {key : α} {value : β} (h : Overlay base t s) (inside : key ∈ base.keys) :
    Overlay base (t.put key value) (s.put key value) := by
  have member : ∀ other, other ∈ (t.put key value).keys ↔ other = key ∨ other ∈ t.keys := by
    intro other
    rw [← getSome, getPut, ← getSome]
    by_cases same : other = key <;> simp [same]
  constructor
  · rw [keysPut, if_pos (by rw [h.keys]; exact inside), h.keys]
  · intro other found
    rw [getPut, getPut]
    by_cases same : other = key
    · rw [if_pos same, if_pos same]
    · rw [if_neg same, if_neg same]
      exact h.written other (((member other).mp found).resolve_left same)
  · intro other missing
    rw [member, not_or] at missing
    rw [getPut, if_neg missing.1]
    exact h.kept other missing.2

end Overlay
end Table

namespace Tables

/- Every key of these tables is one of those. -/
structure Within (t u : Tables) : Prop where
  environment : t.environment.keys ⊆ u.environment.keys
  results : t.results.keys ⊆ u.results.keys

theorem Within.refl (t : Tables) : Within t t := ⟨List.Subset.refl _, List.Subset.refl _⟩

theorem Within.trans {t u v : Tables} (h : Within t u) (k : Within u v) : Within t v :=
  ⟨List.Subset.trans h.environment k.environment, List.Subset.trans h.results k.results⟩

structure Overlay (base t s : Tables) : Prop where
  environment : Table.Overlay base.environment t.environment s.environment
  results : Table.Overlay base.results t.results s.results

theorem Overlay.start (base : Tables) : Overlay base .empty base := ⟨.start _, .start _⟩

theorem Overlay.whole {base s : Tables} (h : Overlay base base s) : s = base := by
  obtain ⟨environment, results⟩ := s
  obtain rfl := h.environment.whole
  obtain rfl := h.results.whole
  rfl

theorem Overlay.sameReads {base t s : Tables} {e : Expr} (h : Overlay base t s)
    (read : e.Resolved t) : Expr.SameReads s t e :=
  ⟨fun m inside => h.environment.written m.name (read.names m inside),
    fun r inside => h.results.written r.step (read.steps r inside)⟩

end Tables

open Tables (Within Overlay)

/- A reading that comes out well on some tables comes out the same on any overlay of them. -/
def Steady {γ : Type} (read : Tables → Except EvalError γ) : Prop :=
  ∀ base t s value, Overlay base t s → read t = .ok value → read s = .ok value

theorem steadyEval (e : Expr) : Steady fun t => e.eval t := by
  intro base t s value laid ok
  exact (Expr.evalCongr (laid.sameReads (Expr.evalResolved ok))).trans ok

theorem steadyCondition (e : Expr) : Steady fun t => e.condition t := by
  intro base t s taken laid ok
  exact (Expr.conditionCongr (laid.sameReads (Expr.conditionResolved ok))).trans ok

theorem steadyAll (es : List Expr) : Steady fun t => Expr.evalAll t es := by
  intro base t s values laid ok
  have read := Expr.evalAllResolved ok
  exact (Expr.evalAllCongr fun e inside => laid.sameReads (read e inside)).trans ok

/- A part of a run that only adds keys, and that repeats itself: if a run ends within tables `base`,
and in just these where it fails, then on any overlay of its start over `base` the same happens, and
ends in an overlay of its end. -/
structure Repeats (part : Tables → Run) : Prop where
  grows : ∀ t : Tables, t.Within (part t).tables
  again : ∀ base t s : Tables, Overlay base t s → (part t).tables.Within base →
    ((part t).failure ≠ none → (part t).tables = base) →
    (part s).occurrences = (part t).occurrences ∧ (part s).failure = (part t).failure ∧
      Overlay base (part t).tables (part s).tables

namespace Repeats

theorem done : Repeats Run.done :=
  ⟨Within.refl, fun _ _ _ laid _ _ => ⟨rfl, rfl, laid⟩⟩

theorem noted (o : Occurrence) : Repeats fun t => Run.noted t o :=
  ⟨Within.refl, fun _ _ _ laid _ _ => ⟨rfl, rfl, laid⟩⟩

theorem stopped (os : List Occurrence) (f : Failure) : Repeats fun t => ⟨os, t, some f⟩ :=
  ⟨Within.refl, fun _ _ _ laid _ _ => ⟨rfl, rfl, laid⟩⟩

theorem bound (os : List Occurrence) (name value : String) :
    Repeats fun t => ⟨os, t.bind name value, none⟩ where
  grows t := ⟨(Table.keysGrow t.environment name value).subset, List.Subset.refl _⟩
  again base t s laid within _ := by
    have inside : name ∈ base.environment.keys := by
      apply within.environment
      rw [← Table.getSome]
      exact ⟨value, by simp [Tables.bind, Table.getPut]⟩
    exact ⟨rfl, rfl, laid.environment.put inside, laid.results⟩

theorem recorded (os : List Occurrence) (id : Int) (result : StepResult) :
    Repeats fun t => ⟨os, t.record id result, none⟩ where
  grows t := ⟨List.Subset.refl _, (Table.keysGrow t.results id result).subset⟩
  again base t s laid within _ := by
    have inside : id ∈ base.results.keys := by
      apply within.results
      rw [← Table.getSome]
      exact ⟨result, by simp [Tables.record, Table.getPut]⟩
    exact ⟨rfl, rfl, laid.environment, laid.results.put inside⟩

theorem within {part : Tables → Run} (h : Repeats part) (id : Int) :
    Repeats fun t => (part t).within id where
  grows := h.grows
  again base t s laid inside failed := by
    obtain ⟨occurrences, failure, ended⟩ := h.again base t s laid inside failed
    exact ⟨by simp only [Run.within, occurrences], failure, ended⟩

theorem andThen {part next : Tables → Run} (h : Repeats part) (k : Repeats next) :
    Repeats fun t => (part t).andThen next where
  grows t := by
    cases first : (part t).failure with
    | some f =>
      rw [Run.andThenStopped first]
      exact h.grows t
    | none =>
      rw [Run.andThenDone first]
      exact (h.grows t).trans (k.grows _)
  again base t s laid inside failed := by
    cases first : (part t).failure with
    | some f =>
      rw [Run.andThenStopped first] at inside failed ⊢
      obtain ⟨occurrences, failure, ended⟩ := h.again base t s laid inside failed
      rw [Run.andThenStopped (failure.trans first)]
      exact ⟨occurrences, failure, ended⟩
    | none =>
      rw [Run.andThenDone first] at inside failed ⊢
      have before := (k.grows (part t).tables).trans inside
      obtain ⟨occurrences, failure, ended⟩ :=
        h.again base t s laid before fun some => absurd first some
      obtain ⟨others, last, final⟩ := k.again base _ _ ended inside failed
      rw [Run.andThenDone (failure.trans first)]
      exact ⟨by rw [occurrences, others], last, final⟩

/- A part that begins with a reading. Where that fails, the first run has come to its end, and the
overlay is complete. -/
theorem reading {γ : Type} {part : Tables → Run} {read : Tables → Except EvalError γ}
    (steady : Steady read)
    (error : ∀ t x, read t = .error x → part t = .failed t (.evaluation x))
    (ok : ∀ value, ∃ next, Repeats next ∧ ∀ t, read t = .ok value → part t = next t) :
    Repeats part where
  grows t := by
    cases found : read t with
    | error x =>
      rw [error t x found]
      exact .refl t
    | ok value =>
      obtain ⟨next, h, same⟩ := ok value
      rw [same t found]
      exact h.grows t
  again base t s laid inside failed := by
    cases found : read t with
    | error x =>
      rw [error t x found] at failed
      obtain rfl : t = base := failed nofun
      obtain rfl := laid.whole
      exact ⟨rfl, rfl, by rw [error s x found]; exact laid⟩
    | ok value =>
      obtain ⟨next, h, same⟩ := ok value
      rw [same t found] at inside failed ⊢
      rw [same s (steady base t s value laid found)]
      exact h.again base t s laid inside failed

end Repeats

theorem declarationRepeats (d : Declaration) : Repeats fun t => d.run t := by
  refine .reading (steadyEval d.value) (fun t x found => by simp only [Declaration.run, found])
    fun value => ⟨_, .bound [.bound d.keyword d.name value] d.name value, fun t found => ?_⟩
  simp only [Declaration.run, found]
  rfl

theorem declarationsRepeat (ds : List Declaration) : Repeats fun t => runDeclarations t ds := by
  induction ds with
  | nil => exact .done
  | cons d rest ih => exact (declarationRepeats d).andThen ih

theorem commandRepeats (registry : Registry) (id : Int) (name : String) (arguments : List Expr) :
    Repeats fun t => runCommand registry t id name arguments := by
  refine .reading (steadyAll arguments) (fun t x found => by simp only [runCommand, found])
    fun values => ?_
  cases reply : registry.dispatch? name values with
  | none => exact ⟨_, .recorded _ id _, fun t found => by simp only [runCommand, found, reply]; rfl⟩
  | some answer =>
    obtain ⟨said, outcome⟩ := answer
    cases outcome with
    | result r =>
      exact ⟨_, .recorded _ id r, fun t found => by simp only [runCommand, found, reply]; rfl⟩
    | nothing =>
      exact ⟨_, .recorded _ id _, fun t found => by simp only [runCommand, found, reply]; rfl⟩
    | failed message =>
      exact ⟨_, .stopped _ _, fun t found => by simp only [runCommand, found, reply]; rfl⟩

theorem conditionalRepeats (registry : Registry) {s : Step} {condition : Expr}
    (owner : s.condition? = some condition)
    (block : ∀ taken, Repeats fun t => Step.runAll registry t (s.chosen taken)) :
    Repeats fun t => s.run registry t := by
  simp only [Step.runConditional registry _ owner]
  refine .within (.reading (steadyCondition condition) (fun t x found => by simp only [found])
    fun taken => ?_) s.id
  have taking := (Repeats.noted (.branched taken s.hasElse)).andThen (block taken)
  exact ⟨_, taking, fun t found => by simp only [found]⟩

namespace Step

mutual

theorem repeats (registry : Registry) : (s : Step) → Repeats fun t => s.run registry t
  | .command id name arguments _ _ => (commandRepeats registry id name arguments).within id
  | .ifOnly _ _ body _ _ => conditionalRepeats registry rfl fun
      | true => repeatsAll registry body
      | false => .done
  | .ifElse _ _ body other _ _ => conditionalRepeats registry rfl fun
      | true => repeatsAll registry body
      | false => repeatsAll registry other
  | .absent id _ => (Repeats.stopped [] .absentContent).within id

theorem repeatsAll (registry : Registry) : (steps : List Step) →
    Repeats fun t => runAll registry t steps
  | [] => .done
  | s :: rest => (repeats registry s).andThen (repeatsAll registry rest)

end

end Step

theorem workflowsRepeat (registry : Registry) (ws : List Workflow) :
    Repeats fun t => runWorkflows registry t ws := by
  induction ws with
  | nil => exact .done
  | cons w rest ih =>
    have first : Repeats fun t => w.run registry t :=
      (Repeats.noted (.workflowEntered w.name)).andThen (Step.repeatsAll registry w.steps)
    exact first.andThen ih

theorem Program.repeats (registry : Registry) (p : Program) : Repeats fun t => p.run registry t :=
  (declarationsRepeat p.declarations).andThen (workflowsRepeat registry p.workflows)

/- On the tables that its first run left, a program does the same again and leaves them as they
are. -/
theorem Program.runAgain (registry : Registry) (p : Program) :
    p.run registry (p.run registry .empty).tables = p.run registry .empty := by
  obtain ⟨occurrences, failure, ended⟩ := (p.repeats registry).again _ .empty _
    (.start (p.run registry .empty).tables) (.refl _) fun _ => rfl
  exact Run.ofParts occurrences ended.whole failure

/- Executing a program a second time on the same executor ends as the first time did, also where
that failed, leaves the same tables with their keys in the same order, and adds the same events to
the trace. -/
theorem Executor.executeAgain (registry : Registry) (p : Program) :
    let first := (Executor.fresh registry).execute p
    let second := first.executor.execute p
    second.failure = first.failure ∧ second.executor.tables = first.executor.tables ∧
      second.executor.events = first.executor.events ++ second.events ∧
      second.events.map Event.shape = first.events.map Event.shape := by
  intro first second
  have again : p.run registry first.executor.tables = p.run registry .empty := p.runAgain registry
  have outside : first.executor.position.depth = Position.start.depth :=
    p.grounded registry .empty .start rfl
  refine ⟨congrArg Run.failure again, congrArg Run.tables again, rfl, ?_⟩
  change (first.executor.position.events
    (p.run registry first.executor.tables).occurrences).map Event.shape = _
  rw [again]
  exact Position.eventsShape outside _

end Stepwise
