import Stepwise.Proofs.Execution.Alike
import Stepwise.Proofs.Execution.Depth

/-! A run that keeps its trace as it goes. The recorder is a part of the state that every element of a
program is performed in: it follows the run, keeps what it shows, and prints it where the echo is on.
Nothing that is performed ever looks at it, so the run is the one that knows of no trace, and executors
that differ in their traces only do the same. -/
namespace Stepwise

/- A trace as it stands in the middle of a run, with what has been printed of it and logged. -/
structure Recorder where
  echo : Bool
  position : Position
  events : List Event
  printed : String
  journal : List JournalEntry

namespace Recorder

def record (r : Recorder) (o : Occurrence) : Recorder :=
  let shown := r.position.events [o]
  ⟨r.echo, r.position.after o, r.events ++ shown,
    if r.echo then r.printed ++ eventLines shown else r.printed, r.journal ++ o.journal⟩

def recordAll (r : Recorder) (os : List Occurrence) : Recorder := os.foldl record r

theorem linesAppend (a b : List Event) : eventLines (a ++ b) = eventLines a ++ eventLines b := by
  unfold eventLines
  rw [List.map_append, String.join_append]

theorem recorded (r : Recorder) (os : List Occurrence) :
    r.recordAll os = ⟨r.echo, r.position.afterAll os, r.events ++ r.position.events os,
      if r.echo then r.printed ++ eventLines (r.position.events os) else r.printed,
      r.journal ++ os.flatMap Occurrence.journal⟩ := by
  induction os generalizing r with
  | nil =>
    obtain ⟨echo, position, events, printed, journal⟩ := r
    cases echo <;> simp [recordAll, Position.events, Position.afterAll, eventLines]
  | cons o rest ih =>
    obtain ⟨echo, position, events, printed, journal⟩ := r
    change (record _ o).recordAll rest = _
    rw [ih, ← List.singleton_append, position.eventsAppend [o] rest, linesAppend]
    cases echo <;> simp [record, Position.afterAll, String.append_assoc]

end Recorder

structure Live where
  tables : Tables
  recorder : Recorder

/- What an act has changed and recorded stays where it fails. -/
abbrev Performing := ExceptT Failure (StateM Live)

namespace Performing

def note (o : Occurrence) : Performing Unit :=
  modify fun s => { s with recorder := s.recorder.record o }

def change (f : Tables → Tables) : Performing Unit :=
  modify fun s => { s with tables := f s.tables }

def reading {γ : Type} (read : Tables → Except EvalError γ) : Performing γ := do
  match read (← get).tables with
  | .ok value => return value
  | .error x => throw (.evaluation x)

/- The step is left also where its body fails. -/
def enclosed (id : Int) (body : Performing Unit) : Performing Unit := do
  note (.stepEntered id)
  try body finally note .stepLeft

theorem behind {α β : Type} (act : Performing α) (next : α → Performing β) (s : Live) :
    (act >>= next) s = match act s with
      | (.ok value, u) => next value u
      | (.error f, u) => (.error f, u) := by
  change ExceptT.bindCont next (act s).1 (act s).2 = _
  obtain ⟨outcome, u⟩ := act s
  cases outcome <;> rfl

theorem readingRun {γ : Type} (read : Tables → Except EvalError γ) (s : Live) :
    reading read s = ((read s.tables).mapError Failure.evaluation, s) := by
  change (match read s.tables with
    | .ok value => (pure value : Performing γ)
    | .error x => throw (Failure.evaluation x)) s = _
  cases read s.tables <;> rfl

theorem enclosedRun (id : Int) (body : Performing Unit) (s : Live) :
    enclosed id body s = match body { s with recorder := s.recorder.record (.stepEntered id) } with
      | (outcome, u) => (outcome, { u with recorder := u.recorder.record .stepLeft }) := by
  rw [enclosed, behind]
  change (tryFinally body (note .stepLeft)) { s with recorder := s.recorder.record (.stepEntered id) } = _
  generalize found : body { s with recorder := s.recorder.record (.stepEntered id) } = ended
  obtain ⟨outcome, u⟩ := ended
  simp only [tryFinally, tryFinally', Functor.map, ExceptT.map, ExceptT.mk, StateT.bind, bind, found]
  cases outcome <;> rfl

end Performing

open Performing

def Declaration.perform (d : Declaration) : Performing Unit := do
  let value ← reading fun t => d.value.eval t
  change fun t => t.bind d.name value
  note (.bound d.keyword d.name value)

def CommandOutcome.answer? : CommandOutcome → Except Failure (Option StepResult)
  | .result r => .ok (some r)
  | .nothing => .ok none
  | .failed message => .error (.command message)

/- What a handler answers, with its lines recorded as it says them. -/
def answer (registry : Registry) (name : String) (values : List String) :
    Performing (Option StepResult) := do
  match registry.dispatch? name values with
  | none => return none
  | some reply =>
      reply.said.forM fun line => note (.said line)
      MonadExcept.ofExcept reply.outcome.answer?

/- The call of a command and what becomes of its answer. -/
def settle (registry : Registry) (id : Int) (name : String) (values : List String) :
    Performing Unit := do
  match ← answer registry name values with
  | some r => change fun t => t.record id r
  | none =>
      note (.unknown id name)
      change fun t => t.record id (.unknownCommand name)

def performCommand (registry : Registry) (id : Int) (name : String) (arguments : List Expr) :
    Performing Unit := do
  let values ← reading fun t => Expr.evalAll t arguments
  note (.dispatched name values)
  settle registry id name values

namespace Step

mutual

def perform (registry : Registry) : Step → Performing Unit
  | .command id name arguments _ _ => enclosed id (performCommand registry id name arguments)
  | .ifOnly id condition body _ _ => enclosed id do
      let taken ← reading fun t => condition.condition t
      note (.branched taken false)
      if taken then performAll registry body
  | .ifElse id condition body other _ _ => enclosed id do
      let taken ← reading fun t => condition.condition t
      note (.branched taken true)
      if taken then performAll registry body else performAll registry other
  | .absent id _ => enclosed id (throw .absentContent)

def performAll (registry : Registry) : List Step → Performing Unit
  | [] => return
  | step :: rest => do
      perform registry step
      performAll registry rest

end

end Step

def Workflow.perform (registry : Registry) (w : Workflow) : Performing Unit := do
  note (.workflowEntered w.name)
  Step.performAll registry w.steps

def Program.perform (registry : Registry) (p : Program) : Performing Unit := do
  p.declarations.forM Declaration.perform
  p.workflows.forM (Workflow.perform registry)

def Run.outcome (r : Run) : Except Failure Unit :=
  match r.failure with
  | none => .ok ()
  | some f => .error f

/- An act does what a part of a run does, and leaves the recorder as it comes out of the occurrences of
the part. -/
def Performs (act : Performing Unit) (part : Tables → Run) : Prop :=
  ∀ s : Live, act s = ((part s.tables).outcome,
    ⟨(part s.tables).tables, s.recorder.recordAll (part s.tables).occurrences⟩)

namespace Performs

variable {act other : Performing Unit} {part next : Tables → Run}

theorem done : Performs (pure ()) .done := fun _ => rfl

theorem noted (o : Occurrence) : Performs (note o) fun t => .noted t o := fun _ => rfl

theorem failed (f : Failure) : Performs (throw f) fun t => .failed t f := fun _ => rfl

theorem andThen (h : Performs act part) (k : Performs other next) :
    Performs (act >>= fun _ => other) fun t => (part t).andThen next := by
  intro s
  rw [behind, h s]
  cases first : (part s.tables).failure with
  | some f =>
    simp only [Run.andThenStopped first, Run.outcome, first]
  | none =>
    simp only [Run.andThenDone first, Run.outcome, first, k _, Recorder.recordAll, List.foldl_append]

/- An act that begins with a reading. -/
theorem reads {γ : Type} {read : Tables → Except EvalError γ} {act : γ → Performing Unit}
    (error : ∀ t x, read t = .error x → part t = .failed t (.evaluation x))
    (ok : ∀ t value, read t = .ok value → ∃ next, Performs (act value) next ∧ part t = next t) :
    Performs (reading read >>= act) part := by
  intro s
  rw [behind, readingRun]
  cases found : read s.tables with
  | error x =>
    rw [error _ _ found]
    rfl
  | ok value =>
    obtain ⟨next, h, same⟩ := ok _ _ found
    rw [same]
    exact h s

theorem within (h : Performs act part) (id : Int) :
    Performs (enclosed id act) fun t => (part t).within id := by
  intro s
  rw [enclosedRun, h]
  simp only [Run.within, Run.outcome, Recorder.recordAll, List.foldl_cons, List.foldl_append]
  rfl

theorem said (lines : List String) :
    Performs (lines.forM fun line => note (.said line)) fun t => ⟨lines.map .said, t, none⟩ := by
  induction lines with
  | nil => exact done
  | cons line rest ih => exact (noted (.said line)).andThen ih

end Performs

theorem answerAbsent {registry : Registry} {name : String} {values : List String}
    (absent : registry.dispatch? name values = none) : answer registry name values = pure none := by
  unfold answer
  rw [absent]

theorem answerRun {registry : Registry} {name : String} {values said : List String}
    {outcome : CommandOutcome} (reply : registry.dispatch? name values = some ⟨said, outcome⟩)
    (s : Live) : answer registry name values s =
      (outcome.answer?, { s with recorder := s.recorder.recordAll (said.map .said) }) := by
  unfold answer
  rw [reply]
  dsimp only
  rw [behind, Performs.said said s]
  cases outcome <;> rfl

theorem settles {registry : Registry} {name : String} {values said : List String}
    {outcome : CommandOutcome} (id : Int)
    (reply : registry.dispatch? name values = some ⟨said, outcome⟩) :
    Performs (settle registry id name values) fun t => match outcome with
      | .result r => ⟨said.map .said, t.record id r, none⟩
      | .nothing => ⟨said.map .said ++ [.unknown id name], t.record id (.unknownCommand name), none⟩
      | .failed message => ⟨said.map .said, t, some (.command message)⟩ := by
  intro s
  unfold settle
  rw [behind, answerRun reply]
  cases outcome with
  | result r => rfl
  | nothing =>
    simp only [Recorder.recordAll, List.foldl_append]
    rfl
  | failed message => rfl

theorem performsCommand (registry : Registry) (id : Int) (name : String) (arguments : List Expr) :
    Performs (performCommand registry id name arguments)
      fun t => runCommand registry t id name arguments := by
  refine .reads (fun t x found => by simp only [runCommand, found]) fun t values found => ?_
  cases reply : registry.dispatch? name values with
  | none =>
    have settled : Performs (settle registry id name values)
        fun t => ⟨[.unknown id name], t.record id (.unknownCommand name), none⟩ := by
      unfold settle
      rw [answerAbsent reply]
      exact fun _ => rfl
    exact ⟨_, (Performs.noted (.dispatched name values)).andThen settled,
      by simp only [runCommand, found, reply]; rfl⟩
  | some answered =>
    obtain ⟨said, outcome⟩ := answered
    refine ⟨_, (Performs.noted (.dispatched name values)).andThen (settles id reply), ?_⟩
    simp only [runCommand, found, reply]
    cases outcome <;> rfl

namespace Step

theorem performConditional (registry : Registry) {s : Step} {condition : Expr}
    (owner : s.condition? = some condition) :
    s.perform registry = enclosed s.id (do
      let taken ← reading fun t => condition.condition t
      note (.branched taken s.hasElse)
      performAll registry (s.chosen taken)) := by
  cases s with
  | command | absent => cases owner
  | ifOnly | ifElse =>
    cases owner
    unfold perform
    congr 2
    funext taken
    cases taken <;> rfl

theorem performsConditional {registry : Registry} {s : Step} {condition : Expr}
    (owner : s.condition? = some condition)
    (block : ∀ taken, Performs (performAll registry (s.chosen taken))
      fun t => runAll registry t (s.chosen taken)) :
    Performs (s.perform registry) fun t => s.run registry t := by
  rw [performConditional registry owner]
  simp only [runConditional registry _ owner]
  refine .within (.reads (fun t x found => by simp only [found]) fun t taken found => ?_) s.id
  exact ⟨_, (Performs.noted (.branched taken s.hasElse)).andThen (block taken), by simp only [found]⟩

mutual

theorem performs (registry : Registry) : (s : Step) →
    Performs (s.perform registry) fun t => s.run registry t
  | .command id name arguments _ _ => (performsCommand registry id name arguments).within id
  | .ifOnly _ _ body _ _ => performsConditional rfl fun
      | true => performsAll registry body
      | false => .done
  | .ifElse _ _ body other _ _ => performsConditional rfl fun
      | true => performsAll registry body
      | false => performsAll registry other
  | .absent id _ => (Performs.failed .absentContent).within id

theorem performsAll (registry : Registry) : (steps : List Step) →
    Performs (performAll registry steps) fun t => runAll registry t steps
  | [] => .done
  | s :: rest => (performs registry s).andThen (performsAll registry rest)

end

end Step

theorem declarationPerforms (d : Declaration) : Performs d.perform fun t => d.run t := by
  refine .reads (fun t x found => by simp only [Declaration.run, found]) fun t value found => ?_
  exact ⟨fun t => .noted (t.bind d.name value) (.bound d.keyword d.name value), fun _ => rfl,
    by simp only [Declaration.run, found]⟩

theorem declarationsPerform (ds : List Declaration) :
    Performs (ds.forM Declaration.perform) fun t => runDeclarations t ds := by
  induction ds with
  | nil => exact .done
  | cons d rest ih => exact (declarationPerforms d).andThen ih

theorem workflowsPerform (registry : Registry) (ws : List Workflow) :
    Performs (ws.forM (Workflow.perform registry)) fun t => runWorkflows registry t ws := by
  induction ws with
  | nil => exact .done
  | cons w rest ih =>
    have first : Performs (w.perform registry) fun t => w.run registry t :=
      (Performs.noted (.workflowEntered w.name)).andThen (Step.performsAll registry w.steps)
    exact first.andThen ih

theorem Program.performs (registry : Registry) (p : Program) :
    Performs (p.perform registry) fun t => p.run registry t :=
  (declarationsPerform p.declarations).andThen (workflowsPerform registry p.workflows)

/- What of an event does not hang on the place in the program where it is recorded. -/
def Event.content (e : Event) : EventKind × String := (e.kind, e.message)

/- What a trace tells hangs on the occurrences alone. -/
theorem Position.eventsContent (q : Position) (os : List Occurrence) :
    (q.events os).map Event.content = os.filterMap Occurrence.shown? := by
  induction os generalizing q with
  | nil => rfl
  | cons o rest ih =>
    simp only [events, List.map_append, ih, List.filterMap_cons]
    cases o.shown? <;> rfl

structure Performance where
  execution : Execution
  printed : String

namespace Executor

/- Executes a program with its trace kept, and printed with the echo on, as the program goes. -/
def perform (x : Executor) (echo : Bool) (p : Program) : Performance :=
  let performed := p.perform x.registry ⟨x.tables, ⟨echo, x.position, x.events, "", [startEntry p]⟩⟩
  let failure := match performed.1 with
    | .ok () => none
    | .error f => some f
  let tables := performed.2.tables
  let kept := performed.2.recorder
  ⟨⟨⟨x.registry, tables, kept.position, kept.events⟩, kept.events.drop x.events.length, failure,
    kept.journal ++ endEntry ⟨[], tables, failure⟩⟩, kept.printed⟩

/- To keep the trace on the way comes to the same as to make it of the occurrences afterwards. -/
theorem performed (x : Executor) (echo : Bool) (p : Program) :
    x.perform echo p = ⟨x.execute p, if echo then eventLines (x.execute p).events else ""⟩ := by
  have whole := p.performs x.registry ⟨x.tables, ⟨echo, x.position, x.events, "", [startEntry p]⟩⟩
  have ends : (match (p.run x.registry x.tables).outcome with
      | .ok () => none
      | .error f => some f) = (p.run x.registry x.tables).failure := by
    unfold Run.outcome
    cases (p.run x.registry x.tables).failure <;> rfl
  unfold perform execute
  simp only [whole, Recorder.recorded, ends, List.drop_left, String.empty_append,
    List.singleton_append]
  rfl

end Executor

/- Two executions that end the same way, with the same found in their tables, and that tell the same in
the same order. -/
structure Execution.Matches (one other : Execution) : Prop where
  failure : one.failure = other.failure
  tables : one.executor.tables.Alike other.executor.tables
  told : one.events.map Event.content = other.events.map Event.content

/- Executors that differ in the order of their tables and in their traces at most do the same with a
program, and tell the same of it behind what they have told before, whether the traces are printed or
not. Where they differ in their traces only, they leave the same tables in the same order. -/
theorem Executor.performApart {x y : Executor} (registry : x.registry.Alike y.registry)
    (tables : x.tables.Alike y.tables) (echo other : Bool) (p : Program) :
    let one := (x.perform echo p).execution
    let two := (y.perform other p).execution
    one.Matches two ∧
      one.executor.events = x.events ++ one.events ∧ two.executor.events = y.events ++ two.events ∧
      (x.registry = y.registry → x.tables = y.tables → one.executor.tables = two.executor.tables) ∧
      one = x.execute p ∧ two = y.execute p := by
  rw [performed, performed]
  have run := p.inStep registry x.tables y.tables tables
  have told : (x.execute p).events.map Event.content = (y.execute p).events.map Event.content := by
    change (x.position.events (p.run x.registry x.tables).occurrences).map Event.content =
      (y.position.events (p.run y.registry y.tables).occurrences).map Event.content
    rw [Position.eventsContent, Position.eventsContent, run.occurrences]
  refine ⟨⟨run.failure, run.tables, told⟩, rfl, rfl, fun sameRegistry sameTables => ?_, rfl, rfl⟩
  change (p.run x.registry x.tables).tables = (p.run y.registry y.tables).tables
  rw [sameRegistry, sameTables]

/- An executor that has stopped within a step, with its trace printed, and one with the same variables
in another order. -/
def sendRegistry : Registry := Table.empty.put "send" fun values => ⟨values, .result (.ok "sent" "")⟩

def stoppedWithin : Executor :=
  ⟨sendRegistry, (Tables.empty.bind "a" "yes").bind "b" "no", ⟨some "w", some 4, 2⟩,
    [⟨.stepStart, "Step 4:", some "w", some 4, 2⟩]⟩

def neverStarted : Executor :=
  ⟨sendRegistry, (Tables.empty.bind "b" "no").bind "a" "yes", .start, []⟩

def nestedSend : Program :=
  ⟨[], [⟨"v", [.ifOnly 1 (.name "a" none) [.command 2 "send" [.name "b" none] none none] none none,
    .command 3 "print" [.result 2 none none] none none], none⟩], none⟩

theorem stoppedWithinPerformsApart :
    (stoppedWithin.perform true nestedSend).execution.Matches
      (neverStarted.perform false nestedSend).execution ∧
    (stoppedWithin.perform true nestedSend).printed ≠
      (neverStarted.perform false nestedSend).printed := by
  have alike : stoppedWithin.tables.Alike neverStarted.tables := by
    refine ⟨fun name => ?_, fun _ => rfl⟩
    simp only [stoppedWithin, neverStarted, Tables.bind, Table.getPut]
    by_cases a : name = "a" <;> by_cases b : name = "b" <;> simp [a, b]
  have registry : stoppedWithin.registry.Alike neverStarted.registry := fun _ => rfl
  exact ⟨(Executor.performApart registry alike true false nestedSend).1, by decide⟩

end Stepwise
