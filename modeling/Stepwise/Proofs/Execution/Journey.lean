import Stepwise.Proofs.Expr.Reads
import Stepwise.Proofs.Execution.Visits

/-! What a journey does to the tables. The environment stays as it was, the results gain exactly the
steps whose commands were carried out on the way, and a run that fails does so at its last visit and
leaves the tables that step was entered with. -/
namespace Stepwise

/- The key under which a step records by itself. -/
def Step.writes : Step → List Int
  | .command id _ _ _ _ => [id]
  | _ => []

def Visit.writes : Visit → List Int
  | .entered step _ => step.writes
  | .passed _ => []

theorem runCommandCases (registry : Registry) (t : Tables) (id : Int) (name : String)
    (arguments : List Expr) :
    (∃ x, Expr.evalAll t arguments = .error x ∧
      runCommand registry t id name arguments = .failed t (.evaluation x)) ∨
    (∃ values, Expr.evalAll t arguments = .ok values) ∧
      ((∃ result, (runCommand registry t id name arguments).failure = none ∧
          (runCommand registry t id name arguments).tables = t.record id result) ∨
        ∃ message, (runCommand registry t id name arguments).failure = some (.command message) ∧
          (runCommand registry t id name arguments).tables = t) := by
  unfold runCommand
  cases h : Expr.evalAll t arguments with
  | error x => exact .inl ⟨x, rfl, rfl⟩
  | ok values =>
    refine .inr ⟨⟨values, rfl⟩, ?_⟩
    dsimp only
    cases registry.dispatch? name values with
    | none => exact .inl ⟨.unknownCommand name, rfl, rfl⟩
    | some reply =>
      obtain ⟨said, outcome⟩ := reply
      cases outcome with
      | result r => exact .inl ⟨r, rfl, rfl⟩
      | nothing => exact .inl ⟨.unknownCommand name, rfl, rfl⟩
      | failed message => exact .inr ⟨message, rfl, rfl⟩

namespace Step

variable {registry : Registry} {t : Tables} {s : Step}

/- Everything a step can do by itself: it records, decides on a branch, or fails and changes
nothing. -/
inductive Own (registry : Registry) (t : Tables) : Step → Prop where
  | recorded {id name arguments line contentLine} (result : StepResult)
      (read : ∀ e ∈ arguments, e.Resolved t)
      (done : ((command id name arguments line contentLine).own registry t).failure = none)
      (tables : ((command id name arguments line contentLine).own registry t).tables =
        t.record id result) :
      Own registry t (command id name arguments line contentLine)
  | decided {s condition} (owner : s.expressions = [condition]) (silent : s.writes = [])
      (read : condition.Resolved t) (done : (s.own registry t).failure = none)
      (tables : (s.own registry t).tables = t) : Own registry t s
  | unreadable {s x e} (inside : e ∈ s.expressions) (error : e.eval t = .error x)
      (failed : s.own registry t = .failed t (.evaluation x)) : Own registry t s
  | refused {s message} (failed : (s.own registry t).failure = some (.command message))
      (tables : (s.own registry t).tables = t) : Own registry t s
  | absent {id line} : Own registry t (absent id line)

theorem ownCases (registry : Registry) (t : Tables) (s : Step) : Own registry t s := by
  cases s with
  | command id name arguments line contentLine =>
    rcases runCommandCases registry t id name arguments with
      ⟨x, error, failed⟩ | ⟨⟨values, ok⟩, ⟨result, done, tables⟩ | ⟨message, failed, tables⟩⟩
    · obtain ⟨e, inside, first⟩ := Expr.evalAllError error
      exact .unreadable inside first failed
    · exact .recorded result (Expr.evalAllResolved ok) done tables
    · exact .refused failed tables
  | ifOnly id condition body line contentLine =>
    cases h : condition.condition t with
    | error x =>
      have failed := Expr.conditionError h
      exact .unreadable (List.mem_singleton_self condition) failed (by simp only [own, h])
    | ok taken =>
      have read := Expr.conditionResolved h
      exact .decided rfl rfl read (by simp only [own, h]; rfl) (by simp only [own, h]; rfl)
  | ifElse id condition body other line contentLine =>
    cases h : condition.condition t with
    | error x =>
      have failed := Expr.conditionError h
      exact .unreadable (List.mem_singleton_self condition) failed (by simp only [own, h])
    | ok taken =>
      have read := Expr.conditionResolved h
      exact .decided rfl rfl read (by simp only [own, h]; rfl) (by simp only [own, h]; rfl)
  | absent id line => exact .absent

theorem ownStopped {f : Failure} (h : (s.own registry t).failure = some f) :
    (s.own registry t).tables = t := by
  cases ownCases registry t s with
  | recorded result read done tables => rw [done] at h; cases h
  | decided owner silent read done tables => exact tables
  | unreadable inside error failed => rw [failed]; rfl
  | refused failed tables => exact tables
  | absent => rfl

theorem ownEnvironment : (s.own registry t).tables.environment = t.environment := by
  cases ownCases registry t s with
  | recorded result read done tables => rw [tables]; rfl
  | decided owner silent read done tables => rw [tables]
  | unreadable inside error failed => rw [failed]; rfl
  | refused failed tables => rw [tables]
  | absent => rfl

/- Only a command changes the tables. -/
theorem ownSilent (silent : s.writes = []) : (s.own registry t).tables = t := by
  cases ownCases registry t s with
  | recorded result read done tables => cases silent
  | decided owner silent read done tables => exact tables
  | unreadable inside error failed => rw [failed]; rfl
  | refused failed tables => exact tables
  | absent => rfl

theorem ownKeys (h : (s.own registry t).failure = none) (key : Int) :
    key ∈ (s.own registry t).tables.results.keys ↔ key ∈ t.results.keys ∨ key ∈ s.writes := by
  cases ownCases registry t s with
  | @recorded id _ _ _ _ result read done tables =>
    rw [tables]
    simp only [Tables.record, Table.keysPut, writes, List.mem_singleton]
    split
    · rename_i old
      exact ⟨.inl, fun found => found.elim (fun k => k) fun same => same ▸ old⟩
    · rw [List.mem_append, List.mem_singleton]
  | decided owner silent read done tables => rw [tables, silent]; simp
  | unreadable inside error failed => rw [failed] at h; cases h
  | refused failed tables => rw [failed] at h; cases h
  | absent => cases h

theorem ownResolved (h : (s.own registry t).failure = none) : ∀ e ∈ s.expressions, e.Resolved t := by
  cases ownCases registry t s with
  | recorded result read done tables => exact read
  | decided owner silent read done tables =>
    intro e inside
    rw [owner] at inside
    rw [List.mem_singleton.mp inside]
    exact read
  | unreadable inside error failed => rw [failed] at h; cases h
  | refused failed tables => rw [failed] at h; cases h
  | absent => cases h

theorem ownUnreadable {x : EvalError} (h : (s.own registry t).failure = some (.evaluation x)) :
    ∃ e ∈ s.expressions, e.eval t = .error x := by
  cases ownCases registry t s with
  | recorded result read done tables => rw [done] at h; cases h
  | decided owner silent read done tables => rw [done] at h; cases h
  | unreadable inside error failed =>
    rw [failed] at h
    cases h
    exact ⟨_, inside, error⟩
  | refused failed tables => rw [failed] at h; cases h
  | absent => cases h

end Step

namespace Journey

variable {registry : Registry} {t u v : Tables} {vs a b : List Visit} {s : Step}
  {f : Option Failure}

theorem environment (h : Journey registry t vs u f) : u.environment = t.environment := by
  induction h with
  | home t => rfl
  | passed s rest ih => exact ih
  | entered done rest ih => exact ih.trans Step.ownEnvironment
  | stopped failed => exact Step.ownEnvironment

theorem keys (h : Journey registry t vs u none) (key : Int) :
    key ∈ u.results.keys ↔ key ∈ t.results.keys ∨ key ∈ vs.flatMap Visit.writes := by
  generalize none' : (none : Option Failure) = g at h
  induction h with
  | home t => simp
  | passed s rest ih => simpa [Visit.writes] using ih none'
  | entered done rest ih =>
    rw [ih none', Step.ownKeys done, List.flatMap_cons, List.mem_append, or_assoc]
    rfl
  | stopped failed => cases none'

/- A journey cut in front of one of its entries: what lies before is a journey of its own, and the
tables the entry remembers are those in which it ends. -/
theorem cut (h : Journey registry t (a ++ .entered s v :: b) u f) :
    Journey registry t a v none ∧ Journey registry v (.entered s v :: b) u f := by
  induction a generalizing t with
  | nil =>
    cases h with
    | entered done rest => exact ⟨.home _, .entered done rest⟩
    | stopped failed => exact ⟨.home _, .stopped failed⟩
  | cons x rest ih =>
    generalize whole : x :: rest ++ .entered s v :: b = l at h
    cases h with
    | home t => cases whole
    | passed s tail =>
      obtain ⟨rfl, rfl⟩ := List.cons.inj whole
      obtain ⟨before, behind⟩ := ih tail
      exact ⟨.passed s before, behind⟩
    | entered done tail =>
      obtain ⟨rfl, rfl⟩ := List.cons.inj whole
      obtain ⟨before, behind⟩ := ih tail
      exact ⟨.entered done before, behind⟩
    | stopped failed => simp at whole

theorem done (h : Journey registry t (.entered s t :: b) u none) :
    (s.own registry t).failure = none := by
  cases h with
  | entered done rest => exact done

/- The last visit of a journey that fails is the entry of the step that fails. -/
theorem last {x : Failure} (h : Journey registry t vs u (some x)) :
    ∃ a s, vs = a ++ [.entered s u] ∧ (s.own registry u).failure = some x := by
  generalize some' : some x = g at h
  induction h with
  | home t => cases some'
  | passed s rest ih =>
    obtain ⟨a, s', rfl, failed⟩ := ih some'
    exact ⟨.passed s :: a, s', rfl, failed⟩
  | entered done rest ih =>
    obtain ⟨a, s', rfl, failed⟩ := ih some'
    exact ⟨_ :: a, s', rfl, failed⟩
  | @stopped t s f failed =>
    cases some'
    have same := Step.ownStopped failed
    refine ⟨[], s, ?_, ?_⟩
    · rw [same]; rfl
    · rw [same]; exact failed

end Journey
end Stepwise
