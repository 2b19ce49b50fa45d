import Stepwise.Proofs.Execution.Depth
import Stepwise.Proofs.Execution.Follows

/-! The order in which the trace of a run tells of it: the declarations, then one workflow behind the
other, and in each of them the steps that the decisions of the run leave. -/
namespace Stepwise

namespace Position

/- A step is left without an event. -/
theorem eventsWithin (q : Position) (id : Int) (r : Run) :
    q.events (r.within id).occurrences =
      ⟨.stepStart, s!"Step {id}:", q.workflow, some id, q.depth + 1⟩ ::
        (q.after (.stepEntered id)).events r.occurrences := by
  simp only [Run.within, events]
  rw [eventsAppend]
  exact congrArg _ (List.append_nil _)

theorem eventShown {q : Position} {os : List Occurrence} {e : Event} (h : e ∈ q.events os) :
    ∃ o ∈ os, o.shown? = some (e.kind, e.message) := by
  induction os generalizing q with
  | nil => cases h
  | cons o rest ih =>
    rcases List.mem_append.mp h with here | later
    · obtain ⟨shown, same, rfl⟩ := Option.map_eq_some_iff.mp (Option.mem_toList.mp here)
      exact ⟨o, List.mem_cons_self, same⟩
    · obtain ⟨other, inside, same⟩ := ih later
      exact ⟨other, List.mem_cons_of_mem _ inside, same⟩

/- Events that lie within no step. -/
theorem eventLevel {q : Position} {os : List Occurrence} {e : Event} (h : e ∈ q.events os)
    (outside : e.kind = .bound ∨ e.kind = .workflowStart) : e.depth = 0 := by
  induction os generalizing q with
  | nil => cases h
  | cons o rest ih =>
    rcases List.mem_append.mp h with here | later
    · obtain ⟨shown, same, rfl⟩ := Option.map_eq_some_iff.mp (Option.mem_toList.mp here)
      cases o with
      | workflowEntered | bound => cases same; rfl
      | stepLeft => cases same
      | branched taken hasElse =>
        -- the text of a decision has three forms
        cases taken <;> cases hasElse <;> cases same <;> simp at outside
      | _ => cases same; simp at outside
    · exact ih later

end Position

theorem spokenEvents {os : List Occurrence} (h : ∀ o ∈ os, o.isSpoken = true) {q : Position}
    {e : Event} (inside : e ∈ q.events os) :
    e.depth = q.depth + 1 ∧ e.kind ≠ .stepStart ∧ e.kind ≠ .branch := by
  induction os with
  | nil => cases inside
  | cons o rest ih =>
    obtain ⟨first, later⟩ := List.forall_mem_cons.mp h
    have flat : q.after o = q := by cases o <;> first | rfl | cases first
    simp only [Position.events, flat] at inside
    rcases List.mem_append.mp inside with here | behind
    · obtain ⟨shown, same, rfl⟩ := Option.map_eq_some_iff.mp (Option.mem_toList.mp here)
      cases o with
      | dispatched | said | unknown => cases same; exact ⟨rfl, by simp, by simp⟩
      | _ => cases first
    · exact ih later behind

/- A part of a run that lies within a workflow, from the tables `t`, follows a route and leaves the
trace in that workflow. -/
structure Traced (registry : Registry) (w : Workflow) (route : Route Step) (t : Tables) (r : Run) :
    Prop where
  stays : ∀ q : Position, (q.afterAll r.occurrences).workflow = q.workflow
  follows : ∀ q : Position, q.workflow = some w.name →
    Follows registry t (route.map fun s => (w, s)) (q.depth + 1) (q.events r.occurrences) r.tables
      r.failure

theorem Follows.andThen {registry : Registry} {t : Tables} {a b : Route (Workflow × Step)}
    {floor : Nat} {q : Position} {r : Run} (next : Tables → Run)
    (first : Follows registry t a floor (q.events r.occurrences) r.tables r.failure)
    (second : Follows registry r.tables b floor
      ((q.afterAll r.occurrences).events (next r.tables).occurrences) (next r.tables).tables
      (next r.tables).failure) :
    Follows registry t (a.before b) floor (q.events (r.andThen next).occurrences)
      (r.andThen next).tables (r.andThen next).failure := by
  cases h : r.failure with
  | some x =>
    rw [Run.andThenStopped h, h]
    exact (h ▸ first).stopped b
  | none =>
    rw [Run.andThenDone h]
    dsimp only
    rw [Position.eventsAppend]
    exact (h ▸ first).append second

namespace Traced

variable {registry : Registry} {w : Workflow} {a b : Route Step} {t : Tables} {r : Run} {s : Step}

theorem nothing : Traced registry w .nothing t (.done t) :=
  ⟨fun _ => rfl, fun _ _ => .nothing⟩

theorem andThen {next : Tables → Run} (h : Traced registry w a t r)
    (level : Balanced r.occurrences) (k : Traced registry w b r.tables (next r.tables)) :
    Traced registry w (a.before b) t (r.andThen next) where
  stays q := by
    cases first : r.failure with
    | some x =>
      rw [Run.andThenStopped first]
      exact h.stays q
    | none =>
      rw [Run.andThenDone first]
      dsimp only
      rw [afterAppend, k.stays, h.stays]
  follows q within := by
    rw [Route.mapBefore]
    refine (h.follows q within).andThen next ?_
    have behind := k.follows (q.afterAll r.occurrences) ((h.stays q).trans within)
    rw [level q] at behind
    exact behind

theorem staysWithin (stays : ∀ q : Position, (q.afterAll r.occurrences).workflow = q.workflow)
    (id : Int) (q : Position) : (q.afterAll (r.within id).occurrences).workflow = q.workflow := by
  change ((q.after (.stepEntered id)).afterAll (r.occurrences ++ [.stepLeft])).workflow = q.workflow
  rw [afterAppend]
  exact stays (q.after (.stepEntered id))

/- What a step tells begins with the step itself. -/
theorem eventsStep {q : Position} (inside : q.workflow = some w.name) (s : Step) (r : Run) :
    q.events (r.within s.id).occurrences = startEvent w s (q.depth + 1) ::
      (q.after (.stepEntered s.id)).events r.occurrences := by
  rw [Position.eventsWithin, inside]
  rfl

theorem eventsBranched {q : Position} (inside : q.workflow = some w.name) (s : Step)
    (taken hasElse : Bool) (os : List Occurrence) :
    (q.after (.stepEntered s.id)).events (.branched taken hasElse :: os) =
      branchEvent (startEvent w s (q.depth + 1)) taken hasElse ::
        (q.after (.stepEntered s.id)).events os := by
  simp only [branchEvent, startEvent, ← inside]
  cases taken <;> cases hasElse <;> rfl

theorem plain (plain : s.condition? = none)
    (spoken : ∀ o ∈ r.occurrences, o.isSpoken = true)
    (done : r.failure = none → r.tables = (s.own registry t).tables) :
    Traced registry w s.route t (r.within s.id) where
  stays := staysWithin (fun q => by rw [spokenAfter spoken]) s.id
  follows q inside := by
    rw [eventsStep inside, Step.routePlain plain]
    exact .alone plain (fun e told => spokenEvents spoken told) done

theorem conditional {condition : Expr} (owner : s.condition? = some condition)
    (h : ∀ taken, Traced registry w (Step.routeAll (s.chosen taken)) t
      (Step.runAll registry t (s.chosen taken))) :
    Traced registry w s.route t (s.run registry t) := by
  obtain ⟨everything, way⟩ := Step.routeConditional owner
  rw [Step.runConditional registry t owner, way]
  cases held : condition.condition t with
  | error x =>
    refine ⟨staysWithin (fun _ => rfl) s.id, fun q inside => ?_⟩
    rw [eventsStep inside, Route.mapDeciding]
    exact .undecidable owner held _ _
  | ok taken =>
    refine ⟨staysWithin (h taken).stays s.id, fun q inside => ?_⟩
    dsimp only
    rw [eventsStep inside, Route.mapDeciding, Run.andThenNoted, eventsBranched inside]
    exact .decided owner held (Step.ownConditional registry owner held) _
      ((h taken).follows (q.after (.stepEntered s.id)) inside)

end Traced

namespace Step

mutual

theorem traced (registry : Registry) (w : Workflow) (t : Tables) : (s : Step) →
    Traced registry w s.route t (s.run registry t)
  | .command id name arguments line contentLine =>
      .plain (s := .command id name arguments line contentLine) rfl
        (commandSpeaks registry t id name arguments) fun _ => rfl
  | .ifOnly _ _ body _ _ => .conditional rfl fun
      | true => tracedAll registry w t body
      | false => .nothing
  | .ifElse _ _ body other _ _ => .conditional rfl fun
      | true => tracedAll registry w t body
      | false => tracedAll registry w t other
  | .absent id line => .plain (s := .absent id line) rfl nofun nofun

theorem tracedAll (registry : Registry) (w : Workflow) (t : Tables) : (steps : List Step) →
    Traced registry w (routeAll steps) t (runAll registry t steps)
  | [] => .nothing
  | s :: rest => .andThen (traced registry w t s) (balanced registry t s)
      (tracedAll registry w _ rest)

end

end Step

theorem workflowFollows (registry : Registry) (t : Tables) (w : Workflow) (q : Position) :
    Follows registry t ((Step.routeAll w.steps).map fun s => (w, s)) 0
      (q.events (w.run registry t).occurrences) (w.run registry t).tables
      (w.run registry t).failure := by
  have steps := (Step.tracedAll registry w t w.steps).follows (q.after (.workflowEntered w.name)) rfl
  exact steps.behind ⟨nofun, nofun⟩ rfl (Nat.zero_le 1)

theorem workflowsFollow (registry : Registry) (t : Tables) (ws : List Workflow) (q : Position) :
    Follows registry t (routeWorkflows ws) 0 (q.events (runWorkflows registry t ws).occurrences)
      (runWorkflows registry t ws).tables (runWorkflows registry t ws).failure := by
  induction ws generalizing t q with
  | nil => exact .nothing
  | cons w rest ih => exact (workflowFollows registry t w q).andThen _ (ih _ _)

/- A workflow tells of its own beginning once, and binds no name. -/
theorem workflowTold (registry : Registry) (t : Tables) (w : Workflow) (q : Position) :
    (∀ e ∈ q.events (w.run registry t).occurrences, e.kind ≠ .bound) ∧
    workflowsStarted (q.events (w.run registry t).occurrences) = [some w.name] := by
  have steps := (Step.tracedAll registry w t w.steps).follows (q.after (.workflowEntered w.name)) rfl
  have inner : ∀ e ∈ (q.after (.workflowEntered w.name)).events
      (Step.runAll registry t w.steps).occurrences, e.kind ≠ .bound ∧ e.kind ≠ .workflowStart := by
    intro e inside
    have deep : 1 ≤ e.depth := steps.deep e inside
    constructor <;> intro kind
    · exact absurd (Position.eventLevel inside (.inl kind)) (Nat.pos_iff_ne_zero.mp deep)
    · exact absurd (Position.eventLevel inside (.inr kind)) (Nat.pos_iff_ne_zero.mp deep)
  constructor
  · intro e inside
    rcases List.mem_cons.mp inside with rfl | inside
    · exact nofun
    · exact (inner e inside).1
  · refine congrArg (some w.name :: ·) (?_ : workflowsStarted _ = [])
    exact List.filterMap_eq_nil_iff.mpr fun e inside => if_neg (inner e inside).2

/- The workflows begin in turn. -/
theorem workflowsInTurn (registry : Registry) (t : Tables) (ws : List Workflow) (q : Position) :
    (∀ e ∈ q.events (runWorkflows registry t ws).occurrences, e.kind ≠ .bound) ∧
    workflowsStarted (q.events (runWorkflows registry t ws).occurrences) <+:
      ws.map (fun w => some w.name) ∧
    ((runWorkflows registry t ws).failure = none →
      workflowsStarted (q.events (runWorkflows registry t ws).occurrences) =
        ws.map fun w => some w.name) := by
  induction ws generalizing t q with
  | nil => exact ⟨nofun, List.nil_prefix, fun _ => rfl⟩
  | cons w rest ih =>
    obtain ⟨unbound, one⟩ := workflowTold registry t w q
    unfold runWorkflows
    cases h : (w.run registry t).failure with
    | some x =>
      rw [Run.andThenStopped h, h, one]
      exact ⟨unbound, List.cons_prefix_cons.mpr ⟨rfl, List.nil_prefix⟩, nofun⟩
    | none =>
      obtain ⟨unbound', start, whole⟩ :=
        ih (w.run registry t).tables (q.afterAll (w.run registry t).occurrences)
      rw [Run.andThenDone h]
      dsimp only
      rw [Position.eventsAppend, workflowsStarted, List.filterMap_append]
      rw [workflowsStarted] at one
      rw [one]
      refine ⟨?_, List.cons_prefix_cons.mpr ⟨rfl, start⟩, fun done => congrArg _ (whole done)⟩
      intro e inside
      exact (List.mem_append.mp inside).elim (unbound e) (unbound' e)

theorem declarationsBind (t : Tables) (ds : List Declaration) :
    ∀ o ∈ (runDeclarations t ds).occurrences, ∃ keyword name value, o = .bound keyword name value := by
  induction ds generalizing t with
  | nil => exact nofun
  | cons d rest ih =>
    have first : ∀ o ∈ (d.run t).occurrences, ∃ keyword name value,
        o = .bound keyword name value := by
      unfold Declaration.run
      cases d.value.eval t with
      | error x => exact nofun
      | ok value => exact fun o inside => ⟨_, _, _, List.mem_singleton.mp inside⟩
    unfold runDeclarations
    cases h : (d.run t).failure with
    | some x =>
      rw [Run.andThenStopped h]
      exact first
    | none =>
      rw [Run.andThenDone h]
      intro o inside
      exact (List.mem_append.mp inside).elim (first o) (ih _ o)

theorem declarationsTell (t : Tables) (ds : List Declaration) {q : Position} {e : Event}
    (inside : e ∈ q.events (runDeclarations t ds).occurrences) : e.kind = .bound := by
  obtain ⟨o, here, shown⟩ := Position.eventShown inside
  obtain ⟨keyword, name, value, rfl⟩ := declarationsBind t ds o here
  exact (congrArg Prod.fst (Option.some.inj shown)).symm

/- What the trace of a whole run tells, in its order. -/
structure Execution.InOrder (registry : Registry) (p : Program) (run : Execution) : Prop where
  /- the steps begin along the walk of the program less the branches that were decided against -/
  order : started run.events <+: named (p.route (decisions run.events))
  whole : run.failure = none → started run.events = named (p.route (decisions run.events))
  walked : (p.route (decisions run.events)).Sublist p.walk
  /- each step does so on the tables that the steps before it left -/
  begun : ∀ before start after, run.events = before ++ start :: after → start.kind = .stepStart →
    ∃ earlier w s later, p.route (decisions run.events) = earlier ++ (w, s) :: later ∧
      started before = named earlier ∧ start.started? = some (some w.name, some s.id) ∧
      Begun w s (tablesBehind registry (runDeclarations .empty p.declarations).tables earlier) start
        run.failure after
  attached : Attached run.events
  boundFirst : ∃ bound others, run.events = bound ++ others ∧ (∀ e ∈ bound, e.kind = .bound) ∧
    ∀ e ∈ others, e.kind ≠ .bound
  inTurn : workflowsStarted run.events <+: p.workflows.map fun w => some w.name
  everyTurn : run.failure = none →
    workflowsStarted run.events = p.workflows.map fun w => some w.name

namespace Program

/- The events of a run: those of the declarations, then those of the workflows, which are none where
a declaration fails. -/
theorem eventsParted (registry : Registry) (p : Program) : ∃ bound others,
    Position.start.events (p.run registry .empty).occurrences = bound ++ others ∧
    (∀ e ∈ bound, e.kind = .bound ∧ e.depth = 0) ∧
    Follows registry (runDeclarations .empty p.declarations).tables (routeWorkflows p.workflows) 0
      others (p.run registry .empty).tables (p.run registry .empty).failure ∧
    (∀ e ∈ others, e.kind ≠ .bound) ∧
    workflowsStarted others <+: p.workflows.map (fun w => some w.name) ∧
    ((p.run registry .empty).failure = none →
      workflowsStarted others = p.workflows.map fun w => some w.name) := by
  have binds : ∀ e ∈ Position.start.events (runDeclarations .empty p.declarations).occurrences,
      e.kind = .bound ∧ e.depth = 0 := by
    intro e inside
    have kind := declarationsTell _ _ inside
    exact ⟨kind, Position.eventLevel inside (.inl kind)⟩
  unfold Program.run
  cases h : (runDeclarations .empty p.declarations).failure with
  | some x =>
    rw [Run.andThenStopped h, h]
    exact ⟨_, [], (List.append_nil _).symm, binds, .unreached _ _ x, nofun, List.nil_prefix, nofun⟩
  | none =>
    rw [Run.andThenDone h]
    exact ⟨_, _, Position.eventsAppend _ _ _, binds, workflowsFollow registry _ p.workflows _,
      workflowsInTurn registry _ p.workflows _⟩

end Program

theorem Executor.executeInOrder (registry : Registry) (p : Program) :
    ((Executor.fresh registry).execute p).InOrder registry p := by
  obtain ⟨bound, others, events, binds, follows, unbound, inTurn, everyTurn⟩ :=
    p.eventsParted registry
  change ((Executor.fresh registry).execute p).events = _ at events
  have whole := follows.behindAll bound fun e inside => by
    rw [(binds e inside).1]
    exact ⟨⟨nofun, nofun⟩, (binds e inside).2⟩
  rw [← events] at whole
  have turns : workflowsStarted ((Executor.fresh registry).execute p).events =
      workflowsStarted others := by
    have silent : bound.filterMap Event.workflowStarted? = [] :=
      List.filterMap_eq_nil_iff.mpr fun e inside => if_neg (by rw [(binds e inside).1]; exact nofun)
    rw [events, workflowsStarted, List.filterMap_append, silent]
    rfl
  constructor
  case order =>
    have order := whole.order []
    rw [List.append_nil] at order
    exact order
  case whole =>
    intro done
    have all := (whole.whole done []).1
    rw [List.append_nil] at all
    exact all
  case walked =>
    exact routeWorkflowsThins p.workflows _
  case begun =>
    intro before start after cut begins
    have begun := whole.begun [] before start after cut begins
    rw [List.append_nil] at begun
    exact begun
  case attached =>
    exact whole.attached
  case boundFirst =>
    exact ⟨bound, others, events, fun e inside => (binds e inside).1, unbound⟩
  case inTurn =>
    exact turns ▸ inTurn
  case everyTurn =>
    exact fun done => turns ▸ everyTurn done

/- A block with a conditional in it that is decided the other way. -/
def nestedChoice : Program :=
  ⟨[⟨"let", "ready", .text "yes" none, none⟩],
    [⟨"w", [.ifElse 1 (.name "ready" none)
        [.ifElse 2 (.text "0" none) [.command 3 "print" [] none none]
            [.command 4 "print" [] none none] none none, .command 5 "print" [] none none]
        [.command 6 "print" [] none none] none none,
      .command 7 "print" [.result 4 none none] none none], none⟩], none⟩

theorem nestedChoiceInOrder :
    let run := (Executor.fresh Table.empty).execute nestedChoice
    run.failure = none ∧ decisions run.events = [true, false] ∧
    started run.events = [1, 2, 4, 5, 7].map fun id => (some "w", some id) := by
  have done : ((Executor.fresh Table.empty).execute nestedChoice).failure = none := by rfl
  have taken : decisions ((Executor.fresh Table.empty).execute nestedChoice).events =
      [true, false] := by rfl
  have order := (Executor.executeInOrder Table.empty nestedChoice).whole done
  rw [taken] at order
  exact ⟨done, taken, order⟩

end Stepwise
