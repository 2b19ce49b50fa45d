import Stepwise.Proofs.Execution.Journey

/-! Whole programs. Declarations bind one name after another and leave the results alone; the steps
of all workflows then make up one journey along the walk of the program. -/
namespace Stepwise

/- The tables `u` come from `t` by binding exactly these names. -/
structure Bound (t : Tables) (names : List String) (u : Tables) : Prop where
  results : u.results = t.results
  keys : ∀ name, name ∈ u.environment.keys ↔ name ∈ t.environment.keys ∨ name ∈ names

namespace Bound

theorem nothing (t : Tables) : Bound t [] t := ⟨rfl, by simp⟩

theorem bind {s t u : Tables} {names : List String} {name value : String}
    (made : s = t.bind name value) (rest : Bound s names u) : Bound t (name :: names) u where
  results := rest.results.trans (by rw [made]; rfl)
  keys := by
    intro other
    rw [rest.keys, made]
    simp only [Tables.bind, Table.keysPut, List.mem_cons]
    split
    · rename_i old
      constructor
      · exact fun found => found.elim .inl fun later => .inr (.inr later)
      · intro given
        rcases given with found | rfl | later
        · exact .inl found
        · exact .inl old
        · exact .inr later
    · rw [List.mem_append, List.mem_singleton, or_assoc]

end Bound

theorem declarationDone {t : Tables} {d : Declaration} (h : (d.run t).failure = none) :
    d.value.Resolved t ∧ ∃ value, (d.run t).tables = t.bind d.name value := by
  unfold Declaration.run at h ⊢
  cases hv : d.value.eval t with
  | error x => rw [hv] at h; cases h
  | ok value => exact ⟨Expr.evalResolved hv, value, rfl⟩

theorem declarationStopped {t : Tables} {d : Declaration} {f : Failure}
    (h : (d.run t).failure = some f) :
    (d.run t).tables = t ∧ ∃ x, f = .evaluation x ∧ d.value.eval t = .error x := by
  unfold Declaration.run at h ⊢
  cases hv : d.value.eval t with
  | error x =>
    rw [hv] at h
    cases h
    exact ⟨rfl, x, rfl, rfl⟩
  | ok value => rw [hv] at h; cases h

/- Every declaration of a run that gets past them was evaluated when just the names before it were
bound. -/
theorem declarationsDone {t : Tables} {ds : List Declaration}
    (h : (runDeclarations t ds).failure = none) :
    Bound t (ds.map Declaration.name) (runDeclarations t ds).tables ∧
    ∀ pre d post, ds = pre ++ d :: post →
      ∃ u, Bound t (pre.map Declaration.name) u ∧ d.value.Resolved u := by
  induction ds generalizing t with
  | nil => exact ⟨.nothing t, by simp⟩
  | cons first rest ih =>
    unfold runDeclarations at h ⊢
    obtain ⟨head, tail⟩ := Run.andThenDoneIff.mp h
    obtain ⟨read, value, tables⟩ := declarationDone head
    obtain ⟨final, later⟩ := ih tail
    rw [Run.andThenDone head]
    refine ⟨final.bind tables, ?_⟩
    intro pre d post split
    cases pre with
    | nil =>
      obtain ⟨rfl, _⟩ := List.cons.inj split
      exact ⟨t, .nothing t, read⟩
    | cons p pre =>
      obtain ⟨rfl, others⟩ := List.cons.inj split
      obtain ⟨u, bound, resolved⟩ := later pre d post others
      exact ⟨u, bound.bind tables, resolved⟩

theorem declarationsStopped {t : Tables} {ds : List Declaration} {f : Failure}
    (h : (runDeclarations t ds).failure = some f) :
    ∃ pre d post x, ds = pre ++ d :: post ∧ f = .evaluation x ∧
      Bound t (pre.map Declaration.name) (runDeclarations t ds).tables ∧
      d.value.eval (runDeclarations t ds).tables = .error x := by
  induction ds generalizing t with
  | nil => cases h
  | cons first rest ih =>
    unfold runDeclarations at h ⊢
    cases head : (first.run t).failure with
    | some g =>
      rw [Run.andThenStopped head] at h ⊢
      obtain ⟨tables, x, cause, error⟩ := declarationStopped h
      rw [tables]
      exact ⟨[], first, rest, x, rfl, cause, .nothing t, error⟩
    | none =>
      obtain ⟨_, value, tables⟩ := declarationDone head
      rw [Run.andThenDone head] at h ⊢
      obtain ⟨pre, d, post, x, split, cause, bound, error⟩ := ih h
      exact ⟨first :: pre, d, post, x, congrArg (first :: ·) split, cause, bound.bind tables,
        error⟩

theorem declarationsTold (t : Tables) (ds : List Declaration) : Told (runDeclarations t ds) [] := by
  induction ds generalizing t with
  | nil => rfl
  | cons d rest ih =>
    have first : Told (d.run t) [] := by
      unfold Declaration.run
      cases d.value.eval t <;> rfl
    have joined := Told.andThen (fun t => runDeclarations t rest) first (ih _)
    rw [Step.onwardNothing] at joined
    exact joined

namespace Step

theorem runAllAppend (registry : Registry) (t : Tables) (a b : List Step) :
    runAll registry t (a ++ b) = (runAll registry t a).andThen fun t => runAll registry t b := by
  induction a generalizing t with
  | nil => rfl
  | cons s rest ih =>
    simp only [List.cons_append, runAll, ih]
    rw [Run.andThenAssoc]

theorem walkAllAppend (a b : List Step) : walkAll (a ++ b) = walkAll a ++ walkAll b := by
  induction a with
  | nil => rfl
  | cons s rest ih => simp only [List.cons_append, walkAll, ih, List.append_assoc]

end Step

namespace Program

/- The steps of all workflows, as they follow one another. -/
def steps (p : Program) : List Step := p.workflows.flatMap Workflow.steps

theorem walkSteps (p : Program) : p.walk.map Prod.snd = Step.walkAll p.steps := by
  unfold walk steps
  induction p.workflows with
  | nil => rfl
  | cons w rest ih =>
    rw [List.flatMap_cons, List.map_append, ih, List.flatMap_cons, Step.walkAllAppend, List.map_map]
    congr 1
    exact List.map_id _

/- Entering a workflow is seen in the trace only. -/
theorem workflowsFlat (registry : Registry) (t : Tables) (ws : List Workflow) :
    (runWorkflows registry t ws).tables =
      (Step.runAll registry t (ws.flatMap Workflow.steps)).tables ∧
    (runWorkflows registry t ws).failure =
      (Step.runAll registry t (ws.flatMap Workflow.steps)).failure ∧
    (runWorkflows registry t ws).occurrences.filterMap Occurrence.entered? =
      (Step.runAll registry t (ws.flatMap Workflow.steps)).occurrences.filterMap
        Occurrence.entered? := by
  induction ws generalizing t with
  | nil => exact ⟨rfl, rfl, rfl⟩
  | cons w rest ih =>
    simp only [runWorkflows, Workflow.run, List.flatMap_cons, Step.runAllAppend, Run.andThenNoted]
    cases h : (Step.runAll registry t w.steps).failure with
    | some x =>
      rw [Run.andThenStopped h, Run.andThenStopped (by rfl)]
      exact ⟨rfl, h.symm, rfl⟩
    | none =>
      rw [Run.andThenDone h, Run.andThenDone (by rfl)]
      obtain ⟨tables, failure, told⟩ := ih (Step.runAll registry t w.steps).tables
      refine ⟨tables, failure, ?_⟩
      rw [List.cons_append, List.filterMap_cons_none rfl, List.filterMap_append,
        List.filterMap_append, told]

def visits (registry : Registry) (t : Tables) (p : Program) : List Visit :=
  Step.onward (runDeclarations t p.declarations)
    (Step.visitsAll registry (runDeclarations t p.declarations).tables p.steps)

variable {registry : Registry} {t : Tables} {p : Program}

theorem runStopped {f : Failure} (h : (runDeclarations t p.declarations).failure = some f) :
    (p.run registry t).failure = some f ∧
    (p.run registry t).tables = (runDeclarations t p.declarations).tables ∧
    p.visits registry t = [] := by
  unfold run visits
  rw [Run.andThenStopped h]
  refine ⟨h, rfl, ?_⟩
  simp only [Step.onward, h]

theorem runJourney (registry : Registry) (h : (runDeclarations t p.declarations).failure = none) :
    Journey registry (runDeclarations t p.declarations).tables (p.visits registry t)
      (p.run registry t).tables (p.run registry t).failure := by
  unfold run visits
  rw [Run.andThenDone h]
  simp only [Step.onward, h]
  obtain ⟨tables, failure, _⟩ :=
    workflowsFlat registry (runDeclarations t p.declarations).tables p.workflows
  rw [tables, failure]
  exact (Step.accountsAll registry _ p.steps).journey

theorem visitsAlong (registry : Registry) (t : Tables) (p : Program) :
    Along (p.walk.map Prod.snd) (p.visits registry t) (p.run registry t).failure := by
  rw [walkSteps]
  unfold visits run
  cases h : (runDeclarations t p.declarations).failure with
  | some f =>
    rw [Run.andThenStopped h, h]
    simp only [Step.onward, h]
    exact ⟨List.nil_prefix, fun done => by cases done⟩
  | none =>
    rw [Run.andThenDone h]
    simp only [Step.onward, h]
    rw [(workflowsFlat registry _ p.workflows).2.1]
    exact (Step.accountsAll registry _ p.steps).along

/- The steps that the trace of a run tells of entering are the entered ones among its visits. -/
theorem visitsTold (registry : Registry) (t : Tables) (p : Program) :
    Told (p.run registry t) (p.visits registry t) := by
  refine Told.andThen _ (declarationsTold t p.declarations) ?_
  unfold Told
  rw [(workflowsFlat registry _ p.workflows).2.2]
  exact (Step.accountsAll registry _ p.steps).told

theorem declarationsDoneOfRun (h : (p.run registry t).failure = none) :
    (runDeclarations t p.declarations).failure = none :=
  (Run.andThenDoneIff.mp h).1

end Program
end Stepwise
