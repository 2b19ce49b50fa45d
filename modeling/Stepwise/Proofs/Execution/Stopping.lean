import Stepwise.Proofs.Execution.Context
import Stepwise.Proofs.Execution.Journey

/-! What a run that fails leaves behind. The element at which it fails changes nothing: the tables are
those with which it was entered, and the trace ends with the beginning of the step, or with what was
told in front of the declaration. A command that fails on its own has been dispatched, and has said
its lines. -/
namespace Stepwise

def Tables.bindAll (t : Tables) (made : List (Declaration × String)) : Tables :=
  made.foldl (fun t entry => t.bind entry.1.name entry.2) t

theorem bindingsTables (t : Tables) (ds : List Declaration) :
    (runDeclarations t ds).tables = t.bindAll (bindings t ds) := by
  induction ds generalizing t with
  | nil => rfl
  | cons d rest ih =>
    unfold runDeclarations bindings Declaration.run
    cases d.value.eval t with
    | error x => rfl
    | ok value =>
      rw [Run.andThenNoted]
      exact ih _

/- Declarations of which one fails: those in front of it have been bound. -/
theorem bindingsStop {t : Tables} {ds : List Declaration} {f : Failure}
    (h : (runDeclarations t ds).failure = some f) :
    ∃ d after x, ds = (bindings t ds).map Prod.fst ++ d :: after ∧ f = .evaluation x ∧
      d.value.eval (runDeclarations t ds).tables = .error x := by
  induction ds generalizing t with
  | nil => cases h
  | cons d rest ih =>
    unfold runDeclarations Declaration.run at h ⊢
    unfold bindings
    cases found : d.value.eval t with
    | error x =>
      rw [found] at h
      cases h
      exact ⟨d, rest, x, rfl, rfl, found⟩
    | ok value =>
      rw [found, Run.andThenNoted] at h
      obtain ⟨other, after, x, split, cause, error⟩ := ih h
      rw [Run.andThenNoted]
      exact ⟨other, after, x, congrArg (d :: ·) split, cause, error⟩

/- A workflow that fails is the last that is entered, and the tables are those it ends with. -/
theorem enteredLast {registry : Registry} {t : Tables} {ws : List Workflow} {f : Failure}
    (h : (runWorkflows registry t ws).failure = some f) :
    ∃ others w u, workflowsEntered registry t ws = others ++ [(w, u)] ∧
      (w.run registry u).failure = some f ∧
      (w.run registry u).tables = (runWorkflows registry t ws).tables := by
  induction ws generalizing t with
  | nil => cases h
  | cons w rest ih =>
    unfold runWorkflows at h ⊢
    unfold workflowsEntered
    cases first : (w.run registry t).failure with
    | some x =>
      rw [Run.andThenStopped first] at h ⊢
      exact ⟨[], w, t, rfl, h, rfl⟩
    | none =>
      rw [Run.andThenDone first] at h ⊢
      obtain ⟨others, last, u, entered, failed, tables⟩ := ih h
      exact ⟨(w, t) :: others, last, u, congrArg _ entered, failed, tables⟩

theorem toldLast {registry : Registry} {w : Workflow} {levels : List (Nat × Step)} {vs : List Visit}
    {v : Visit} {level : Nat} {s : Step} (place : levels[vs.length]? = some (level, s)) :
    toldAlong registry w levels (vs ++ [v]) =
      toldAlong registry w (levels.take vs.length) vs ++ v.told registry w level := by
  have front : (levels.take vs.length).length = vs.length :=
    List.length_take_of_le (Nat.le_of_lt (List.getElem?_eq_some_iff.mp place).1)
  conv => lhs; rw [entryCut place, toldAppend front, toldCons, toldNothing, List.append_nil]

/- A command that fails on its own has been dispatched and has said its lines. -/
theorem commandRefused {registry : Registry} {t : Tables} {id : Int} {name : String}
    {arguments : List Expr} {message : String}
    (h : (runCommand registry t id name arguments).failure = some (.command message)) :
    ∃ values said, Expr.evalAll t arguments = .ok values ∧
      registry.dispatch? name values = some ⟨said, .failed message⟩ ∧
      (runCommand registry t id name arguments).occurrences =
        .dispatched name values :: said.map .said := by
  unfold runCommand at h ⊢
  cases found : Expr.evalAll t arguments with
  | error x => rw [found] at h; cases h
  | ok values =>
    rw [found] at h
    dsimp only at h ⊢
    cases reply : registry.dispatch? name values with
    | none => rw [reply] at h; cases h
    | some answer =>
      obtain ⟨said, outcome⟩ := answer
      rw [reply] at h
      cases outcome with
      | result r => cases h
      | nothing => cases h
      | failed other =>
        cases h
        exact ⟨values, said, rfl, reply, rfl⟩

/- Every way in which a step fails by itself. -/
theorem ownStops {registry : Registry} {t : Tables} {s : Step} {f : Failure}
    (h : (s.own registry t).failure = some f) :
    (∃ x, f = .evaluation x ∧ (∃ e ∈ s.expressions, e.eval t = .error x) ∧
      (s.own registry t).occurrences = []) ∨
    (∃ id name arguments line contentLine values said message,
      s = .command id name arguments line contentLine ∧ f = .command message ∧
      Expr.evalAll t arguments = .ok values ∧
      registry.dispatch? name values = some ⟨said, .failed message⟩ ∧
      (s.own registry t).occurrences = .dispatched name values :: said.map .said) ∨
    ((∃ id line, s = .absent id line) ∧ f = .absentContent) := by
  cases Step.ownCases registry t s with
  | recorded result read done tables => rw [done] at h; cases h
  | decided owner silent read done tables => rw [done] at h; cases h
  | unreadable inside error failed =>
    rw [failed] at h ⊢
    cases h
    exact .inl ⟨_, rfl, ⟨_, inside, error⟩, rfl⟩
  | @refused s message failed tables =>
    cases s with
    | command id name arguments line contentLine =>
      obtain ⟨values, said, read, reply, told⟩ := commandRefused failed
      rw [failed] at h
      cases h
      exact .inr (.inl ⟨_, _, _, _, _, values, said, message, rfl, rfl, read, reply, told⟩)
    | absent => cases failed
    | ifOnly id condition | ifElse id condition =>
      simp only [Step.own] at failed
      cases found : condition.condition t <;> rw [found] at failed <;> cases failed
  | absent =>
    cases h
    exact .inr (.inr ⟨⟨_, _, rfl⟩, rfl⟩)

/- The call of a command, and a line that it says. -/
def callEvent (w : Workflow) (level : Nat) (id : Int) (name : String) (values : List String) : Event :=
  let rendered := ", ".intercalate (values.map Text.quoted)
  ⟨.dispatch, s!"Command: {name}({rendered})", some w.name, some id, level + 1⟩

def lineEvent (w : Workflow) (level : Nat) (id : Int) (line : String) : Event :=
  ⟨.output, line, some w.name, some id, level + 1⟩

theorem linesTold {w : Workflow} {level : Nat} {s : Step} {said : List String} :
    (said.map Occurrence.said).filterMap (innerEvent? w level s) =
      said.map (lineEvent w level s.id) := by
  rw [List.filterMap_map]
  exact congrFun List.filterMap_eq_map said

theorem callTold {w : Workflow} {level : Nat} {s : Step} {name : String} {values said : List String} :
    (Occurrence.dispatched name values :: said.map .said).filterMap (innerEvent? w level s) =
      callEvent w level s.id name values :: said.map (lineEvent w level s.id) :=
  congrArg (callEvent w level s.id name values :: ·) linesTold

/- The place where a run has stopped: the step that it entered last, on the tables on which the run has
ended. What it visited before, in the workflow that the step lies in, led to just these tables. -/
def Execution.StopsAt (registry : Registry) (p : Program) (run : Execution) (w : Workflow)
    (level : Nat) (s : Step) : Prop :=
  ∃ others u vs, p.entered registry .empty = others ++ [(w, u)] ∧
    Step.visitsAll registry u w.steps = vs ++ [.entered s run.executor.tables] ∧
    (Step.levelsAll 1 w.steps)[vs.length]? = some (level, s) ∧
    Journey registry u vs run.executor.tables none

/- What a failed run leaves behind: what the declarations in front of a failing one have bound, and
told, or the tables with which a failing step was entered, and a trace that ends with that step. -/
inductive Execution.Stopped (registry : Registry) (p : Program) (run : Execution) : Failure → Prop where
  | declaration {made d after x} (split : p.declarations = made.map Prod.fst ++ d :: after)
      (error : d.value.eval run.executor.tables = .error x)
      (tables : run.executor.tables = Tables.empty.bindAll made)
      (events : run.events = made.map fun entry => boundEvent entry.1 entry.2) :
      Stopped registry p run (.evaluation x)
  | unreadable {w level s x e told} (place : run.StopsAt registry p w level s)
      (inside : e ∈ s.expressions) (error : e.eval run.executor.tables = .error x)
      (events : run.events = told ++ [startEvent w s level]) :
      Stopped registry p run (.evaluation x)
  | refused {w level id name arguments line contentLine values said message told}
      (place : run.StopsAt registry p w level (.command id name arguments line contentLine))
      (read : Expr.evalAll run.executor.tables arguments = .ok values)
      (reply : registry.dispatch? name values = some ⟨said, .failed message⟩)
      (events : run.events = told ++
        startEvent w (.command id name arguments line contentLine) level ::
          callEvent w level id name values :: said.map (lineEvent w level id)) :
      Stopped registry p run (.command message)
  | absent {w level id line told} (place : run.StopsAt registry p w level (.absent id line))
      (events : run.events = told ++ [startEvent w (.absent id line) level]) :
      Stopped registry p run .absentContent

section
variable {registry : Registry} {p : Program} {w : Workflow} {level : Nat} {s : Step} {t u : Tables}
  {vs : List Visit} {f : Failure}

/- Of the last visit, the level is the one on which its step is nested. -/
theorem levelledLast (h : Step.visitsAll registry u w.steps = vs ++ [.entered s t]) :
    ∃ level, (Step.levelsAll 1 w.steps)[vs.length]? = some (level, s) := by
  obtain ⟨rest, whole⟩ := (Step.accountsAll registry u w.steps).along.start
  have here : (Step.walkAll w.steps)[vs.length]? = some s := by
    rw [← whole, h]
    simp [Visit.step]
  rw [← Step.levelsAllWalk 1 w.steps, List.getElem?_map] at here
  obtain ⟨⟨level, d⟩, at_, rfl⟩ := Option.map_eq_some_iff.mp here
  exact ⟨level, at_⟩

theorem Program.toldEnds {others : List (Workflow × Tables)} {v : Visit}
    (entered : p.entered registry .empty = others ++ [(w, u)])
    (visits : Step.visitsAll registry u w.steps = vs ++ [v])
    (place : (Step.levelsAll 1 w.steps)[vs.length]? = some (level, s)) :
    ∃ front, p.told registry .empty = front ++ v.told registry w level := by
  unfold told
  rw [entered, List.flatMap_append, List.flatMap_singleton]
  unfold Workflow.told
  rw [visits, toldLast place, ← List.cons_append, ← List.append_assoc, ← List.append_assoc]
  exact ⟨_, rfl⟩

/- A run that fails behind its declarations stops at a step, which fails by itself and whose visit is
told last. -/
theorem Program.stopsAt (declared : (runDeclarations .empty p.declarations).failure = none)
    (h : (p.run registry .empty).failure = some f) :
    ∃ w level s front, ((Executor.fresh registry).execute p).StopsAt registry p w level s ∧
      (s.own registry (p.run registry .empty).tables).failure = some f ∧
      p.told registry .empty =
        front ++ (Visit.entered s (p.run registry .empty).tables).told registry w level := by
  have behind : p.run registry .empty =
      ⟨_, (runWorkflows registry (runDeclarations .empty p.declarations).tables p.workflows).tables,
        (runWorkflows registry (runDeclarations .empty p.declarations).tables p.workflows).failure⟩ :=
    Run.andThenDone declared _
  obtain ⟨others, w, u, entered, failed, tables⟩ :=
    enteredLast ((congrArg Run.failure behind).symm.trans h)
  have journey := (Step.accountsAll registry u w.steps).journey
  have ends : (Step.runAll registry u w.steps).tables = (p.run registry .empty).tables :=
    tables.trans (congrArg Run.tables behind).symm
  rw [show (Step.runAll registry u w.steps).failure = some f from failed, ends] at journey
  obtain ⟨vs, s, visits, own⟩ := journey.last
  obtain ⟨level, place⟩ := levelledLast visits
  have whole : p.entered registry .empty = others ++ [(w, u)] := by
    unfold Program.entered
    rw [declared]
    exact entered
  obtain ⟨front, told⟩ := toldEnds whole visits place
  rw [visits] at journey
  exact ⟨w, level, s, front, ⟨others, u, vs, whole, visits, place, journey.cut.1⟩, own, told⟩

end

/- Where a run fails, the element at fault has bound and recorded nothing, and nothing comes behind
it: the tables are those with which it was entered, and the trace ends with the beginning of the step
at fault, or with the last declaration in front of the one at fault. Where a command fails on its
own, its message is the failure, and behind the beginning of its step the trace shows its call and
the lines that it said. -/
theorem Executor.executeStopped (registry : Registry) (p : Program) {f : Failure}
    (h : ((fresh registry).execute p).failure = some f) :
    ((fresh registry).execute p).Stopped registry p f := by
  have events : ((fresh registry).execute p).events = p.told registry .empty := p.tells registry
  change (p.run registry .empty).failure = some f at h
  cases declared : (runDeclarations .empty p.declarations).failure with
  | some g =>
    have stopped : p.run registry .empty = runDeclarations .empty p.declarations :=
      Run.andThenStopped declared _
    rw [stopped, declared] at h
    cases h
    obtain ⟨d, after, x, split, rfl, error⟩ := bindingsStop declared
    have tables : ((fresh registry).execute p).executor.tables =
        (runDeclarations .empty p.declarations).tables := congrArg Run.tables stopped
    refine .declaration split (tables ▸ error) (tables.trans (bindingsTables _ _)) (events.trans ?_)
    unfold Program.told Program.entered
    rw [declared]
    exact List.append_nil _
  | none =>
    obtain ⟨w, level, s, front, place, own, told⟩ := p.stopsAt declared h
    have ends := events.trans told
    rcases ownStops own with ⟨x, rfl, ⟨e, inside, error⟩, silent⟩ |
      ⟨id, name, arguments, line, contentLine, values, said, message, rfl, rfl, read, reply, spoken⟩ |
      ⟨⟨id, line, rfl⟩, rfl⟩
    · rw [Visit.told, silent] at ends
      exact .unreadable place inside error ends
    · rw [Visit.told, spoken, callTold] at ends
      exact .refused place read reply ends
    · exact .absent place ends

/- A command that says a line and fails, in a conditional with a step behind it. -/
def refusingRegistry : Registry := Table.empty.put "send" fun _ => ⟨["sending"], .failed "no route"⟩

def refusedSend : Program :=
  ⟨[⟨"let", "ready", .text "yes" none, none⟩],
    [⟨"w", [.ifOnly 1 (.name "ready" none) [.command 2 "send" [.name "ready" none] none none] none none,
      .command 3 "send" [] none none], none⟩], none⟩

theorem refusedSendStopped :
    let run := (Executor.fresh refusingRegistry).execute refusedSend
    run.failure = some (.command "no route") ∧
      run.Stopped refusingRegistry refusedSend (.command "no route") :=
  have failed : ((Executor.fresh refusingRegistry).execute refusedSend).failure =
      some (.command "no route") := by rfl
  ⟨failed, Executor.executeStopped refusingRegistry refusedSend failed⟩

end Stepwise
