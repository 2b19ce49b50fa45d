import Stepwise.Proofs.Execution.Answers
import Stepwise.Proofs.Execution.Course
import Stepwise.Proofs.Execution.Independence
import Stepwise.Proofs.Execution.Stopping

/-! The calls of a run: one for every command step that is entered and whose arguments have values.
What a run leaves in its results is what was recorded of its calls, one after the other, and what the
trace tells of a call stands between the beginning of its step and that of another. -/
namespace Stepwise

structure Call where
  step : Int
  name : String
  values : List String
  deriving DecidableEq, Repr

/- What is recorded of a call, unless the command fails on its own. -/
def Call.recorded? (registry : Registry) (c : Call) : Option StepResult :=
  match registry.dispatch? c.name c.values with
  | none => some (.unknownCommand c.name)
  | some reply => match reply.outcome with
      | .result r => some r
      | .nothing => some (.unknownCommand c.name)
      | .failed _ => none

def Call.recording? (registry : Registry) (c : Call) : Option (Int × StepResult) :=
  (c.recorded? registry).map fun r => (c.step, r)

/- What occurs behind a call: lines are said, and it is noted where there is no answer. -/
def Call.behind (registry : Registry) (c : Call) : List Occurrence :=
  match registry.dispatch? c.name c.values with
  | none => [.unknown c.step c.name]
  | some reply => reply.said.map .said ++ match reply.outcome with
      | .nothing => [.unknown c.step c.name]
      | _ => []

theorem Call.behindQuiet (registry : Registry) (c : Call) :
    ∀ o ∈ c.behind registry, (∃ line, o = .said line) ∨ o = .unknown c.step c.name := by
  intro o inside
  unfold behind at inside
  split at inside
  · exact .inr (List.mem_singleton.mp inside)
  · rcases List.mem_append.mp inside with said | noted
    · obtain ⟨line, _, rfl⟩ := List.mem_map.mp said
      exact .inl ⟨line, rfl⟩
    · split at noted
      · exact .inr (List.mem_singleton.mp noted)
      · cases noted

namespace Visit

def call? : Visit → Option Call
  | .entered (.command id name arguments _ _) t =>
      match Expr.evalAll t arguments with
      | .ok values => some ⟨id, name, values⟩
      | .error _ => none
  | _ => none

def recording? (registry : Registry) (v : Visit) : Option (Int × StepResult) :=
  v.call?.bind (Call.recording? registry)

end Visit

def calls (vs : List Visit) : List Call := vs.filterMap Visit.call?

/- What is recorded on some visits, in turn. -/
def recordings (registry : Registry) (vs : List Visit) : List (Int × StepResult) :=
  vs.filterMap (Visit.recording? registry)

section
variable {registry : Registry} {t u : Tables} {s : Step} {c : Call} {f : Option Failure}
  {vs : List Visit}

theorem called (h : (Visit.entered s t).call? = some c) : ∃ arguments line contentLine,
    s = .command c.step c.name arguments line contentLine ∧
      Expr.evalAll t arguments = .ok c.values := by
  cases s with
  | command id name arguments line contentLine =>
    simp only [Visit.call?] at h
    cases read : Expr.evalAll t arguments with
    | error x => rw [read] at h; cases h
    | ok values =>
      rw [read] at h
      cases h
      exact ⟨arguments, line, contentLine, rfl, read⟩
  | _ => cases h

/- By itself, a step that makes a call records what is recorded of it, or fails as the command does. -/
theorem ownCalled (registry : Registry) (h : (Visit.entered s t).call? = some c) :
    (s.own registry t).tables = t.recordAll (c.recording? registry).toList ∧
      ((∃ r, c.recording? registry = some (c.step, r)) ∧ (s.own registry t).failure = none ∨
        ∃ message, (s.own registry t).failure = some (.command message)) := by
  obtain ⟨arguments, line, contentLine, rfl, read⟩ := called h
  simp only [Step.own, runCommand, read, Call.recording?, Call.recorded?]
  cases registry.dispatch? c.name c.values with
  | none => exact ⟨rfl, .inl ⟨⟨_, rfl⟩, rfl⟩⟩
  | some reply =>
    obtain ⟨said, outcome⟩ := reply
    cases outcome with
    | result r => exact ⟨rfl, .inl ⟨⟨r, rfl⟩, rfl⟩⟩
    | nothing => exact ⟨rfl, .inl ⟨⟨_, rfl⟩, rfl⟩⟩
    | failed message => exact ⟨rfl, .inr ⟨message, rfl⟩⟩

/- A step that makes no call leaves the tables as they are, and a command fails before its call. -/
theorem ownUncalled (h : (Visit.entered s t).call? = none) :
    (s.own registry t).tables = t ∧ ((s.own registry t).failure = none → s.writes = []) := by
  cases s with
  | command id name arguments line contentLine =>
    simp only [Visit.call?] at h
    simp only [Step.own, runCommand]
    cases read : Expr.evalAll t arguments with
    | error x => exact ⟨rfl, fun done => by cases done⟩
    | ok values => rw [read] at h; cases h
  | _ => exact ⟨Step.ownSilent rfl, fun _ => rfl⟩

theorem ownOccurs (registry : Registry) (h : (Visit.entered s t).call? = some c) :
    (s.own registry t).occurrences = .dispatched c.name c.values :: c.behind registry := by
  obtain ⟨arguments, line, contentLine, rfl, read⟩ := called h
  simp only [Step.own, runCommand, read, Call.behind]
  cases registry.dispatch? c.name c.values with
  | none => rfl
  | some reply =>
    obtain ⟨said, outcome⟩ := reply
    cases outcome with
    | nothing => rfl
    | _ => exact congrArg _ (List.append_nil _).symm

theorem ownSilence (h : (Visit.entered s t).call? = none) :
    ∀ o ∈ (s.own registry t).occurrences, ∃ taken hasElse, o = .branched taken hasElse := by
  intro o inside
  cases s with
  | command id name arguments line contentLine =>
    simp only [Visit.call?] at h
    simp only [Step.own, runCommand] at inside
    cases read : Expr.evalAll t arguments with
    | error x => rw [read] at inside; cases inside
    | ok values => rw [read] at h; cases h
  | absent => cases inside
  | ifOnly | ifElse =>
    simp only [Step.own] at inside
    split at inside
    · cases inside
    · exact ⟨_, _, List.mem_singleton.mp inside⟩

theorem ownRecords (registry : Registry) (t : Tables) (s : Step) :
    (s.own registry t).tables = t.recordAll ((Visit.entered s t).recording? registry).toList := by
  unfold Visit.recording?
  cases h : (Visit.entered s t).call? with
  | none => exact (ownUncalled h).1
  | some c => exact (ownCalled registry h).1

theorem recordingsCons (v : Visit) (vs : List Visit) :
    recordings registry (v :: vs) = (v.recording? registry).toList ++ recordings registry vs := by
  unfold recordings
  rw [List.filterMap_cons]
  cases v.recording? registry <;> rfl

/- A journey leaves what is recorded on its visits, one recording behind the other. -/
theorem Journey.records (h : Journey registry t vs u f) : u = t.recordAll (recordings registry vs) := by
  induction h with
  | home t => rfl
  | passed s rest ih => rw [recordingsCons]; exact ih
  | @entered t s vs u f done rest ih =>
    rw [recordingsCons, Tables.recordAllAppend, ← ownRecords]
    exact ih
  | @stopped t s f failed =>
    rw [recordingsCons, Tables.recordAllAppend, ← ownRecords]
    rfl

theorem callsCons (v : Visit) (vs : List Visit) : calls (v :: vs) = v.call?.toList ++ calls vs := by
  unfold calls
  rw [List.filterMap_cons]
  cases v.call? <;> rfl

theorem recordAllResults {made : List (Int × StepResult)} (same : t.results = u.results) :
    (t.recordAll made).results = (u.recordAll made).results := by
  induction made generalizing t u with
  | nil => exact same
  | cons entry rest ih =>
    refine ih ?_
    simp only [Tables.record, same]

/- The results at the end of a run are what was recorded of its calls in turn, behind what was there. -/
theorem Program.runRecords (registry : Registry) (t : Tables) (p : Program) :
    (p.run registry t).tables.results =
      (t.recordAll (recordings registry (p.visits registry t))).results := by
  cases declared : (runDeclarations t p.declarations).failure with
  | some x =>
    obtain ⟨_, tables, nothing⟩ := runStopped declared
    rw [tables, nothing, declarationsResults]
    rfl
  | none =>
    rw [(runJourney registry declared).records]
    exact recordAllResults (declarationsResults t p.declarations)

theorem recordingStep {v : Visit} {made : Int × StepResult} (h : v.recording? registry = some made) :
    made.1 = v.step.id := by
  obtain ⟨c, called_, recorded⟩ := Option.bind_eq_some_iff.mp h
  obtain ⟨r, _, rfl⟩ := Option.map_eq_some_iff.mp recorded
  cases v with
  | passed s => cases called_
  | entered s t =>
    obtain ⟨arguments, line, contentLine, rfl, _⟩ := called called_
    rfl

/- What a step records under a new number comes behind what was there. -/
theorem ownNew (registry : Registry) (new : s.id ∉ t.results.keys) :
    (s.own registry t).tables.results.entries =
      t.results.entries ++ ((Visit.entered s t).recording? registry).toList := by
  rw [ownRecords]
  cases h : (Visit.entered s t).recording? registry with
  | none => exact (List.append_nil _).symm
  | some made =>
    obtain ⟨key, r⟩ := made
    obtain rfl : key = s.id := recordingStep h
    exact Table.entriesPut new r

/- Another number that is new is so behind the step too. -/
theorem ownStaysNew (registry : Registry) (new : s.id ∉ t.results.keys) {id : Int} (other : id ≠ s.id)
    (fresh : id ∉ t.results.keys) : id ∉ (s.own registry t).tables.results.keys := by
  rw [Table.keys, ownNew registry new, List.map_append, List.mem_append]
  rintro (before | made)
  · exact fresh before
  · obtain ⟨entry, recorded, same⟩ := List.mem_map.mp made
    exact other (same.symm.trans (recordingStep (Option.mem_toList.mp recorded)))

/- On a journey over distinct numbers, none of them recorded before, every step finds its own number
free, and all that is recorded on the way stays. -/
theorem Journey.keeps (h : Journey registry t vs u f) (distinct : (vs.map fun v => v.step.id).Nodup)
    (new : ∀ v ∈ vs, v.step.id ∉ t.results.keys) :
    (∀ s x, .entered s x ∈ vs → s.id ∉ x.results.keys) ∧
      u.results.entries = t.results.entries ++ recordings registry vs := by
  induction h with
  | home t => exact ⟨nofun, (List.append_nil _).symm⟩
  | passed s rest ih =>
    obtain ⟨free, stays⟩ := ih (List.nodup_cons.mp distinct).2 fun v inside =>
      new v (List.mem_cons_of_mem _ inside)
    exact ⟨fun d x inside => free d x ((List.mem_cons.mp inside).resolve_left nofun), stays⟩
  | @entered t s vs u f done rest ih =>
    obtain ⟨apart, distinct⟩ := List.nodup_cons.mp distinct
    have first : s.id ∉ t.results.keys := new _ List.mem_cons_self
    have later : ∀ v ∈ vs, v.step.id ∉ (s.own registry t).tables.results.keys := fun v inside =>
      ownStaysNew registry first (fun same => apart (List.mem_map.mpr ⟨v, inside, same⟩))
        (new v (List.mem_cons_of_mem _ inside))
    obtain ⟨free, stays⟩ := ih distinct later
    refine ⟨fun d x inside => ?_, ?_⟩
    · rcases List.mem_cons.mp inside with here | behind
      · cases here
        exact first
      · exact free d x behind
    · rw [stays, ownNew registry first, recordingsCons, List.append_assoc]
  | @stopped t s f failed =>
    have first : s.id ∉ t.results.keys := new _ List.mem_cons_self
    refine ⟨fun d x inside => ?_, ?_⟩
    · cases List.mem_singleton.mp inside
      exact first
    · rw [ownNew registry first, recordingsCons, recordings, List.filterMap_nil, List.append_nil]

end

/-! Where calls stand in the trace. -/

namespace Step

theorem visitsAllAppend (registry : Registry) (t : Tables) (a b : List Step) :
    visitsAll registry t (a ++ b) = visitsAll registry t a ++
      onward (runAll registry t a) (visitsAll registry (runAll registry t a).tables b) := by
  induction a generalizing t with
  | nil => rfl
  | cons s rest ih =>
    simp only [List.cons_append, visitsAll, runAll, ih]
    cases h : (run registry t s).failure with
    | some x =>
      simp only [Run.andThenStopped h, onward, h, List.append_nil]
    | none =>
      simp only [Run.andThenDone h, onward, h, List.append_assoc]

end Step

def visitsWithin (registry : Registry) (entered : List (Workflow × Tables)) : List Visit :=
  entered.flatMap fun found => Step.visitsAll registry found.2 found.1.steps

section
variable {registry : Registry} {p : Program} {t : Tables}

theorem visitsEntered (registry : Registry) (t : Tables) (ws : List Workflow) :
    Step.visitsAll registry t (ws.flatMap Workflow.steps) =
      visitsWithin registry (workflowsEntered registry t ws) := by
  induction ws generalizing t with
  | nil => rfl
  | cons w rest ih =>
    unfold workflowsEntered visitsWithin
    rw [List.flatMap_cons, List.flatMap_cons, Step.visitsAllAppend]
    congr 1
    have same : (w.run registry t).failure = (Step.runAll registry t w.steps).failure := rfl
    rw [same]
    unfold Step.onward
    cases (Step.runAll registry t w.steps).failure with
    | some x => rfl
    | none => exact ih _

theorem Program.visitsEntered (registry : Registry) (t : Tables) (p : Program) :
    p.visits registry t = visitsWithin registry (p.entered registry t) := by
  unfold visits entered Step.onward
  cases (runDeclarations t p.declarations).failure with
  | some x => rfl
  | none => exact Stepwise.visitsEntered registry _ p.workflows

/- A visit at a place of the walk lies in a workflow that is entered, behind the visits to the steps in
front of its own. -/
theorem enteredAt {ws : List Workflow} {place : Nat} {v : Visit}
    (h : (visitsWithin registry (workflowsEntered registry t ws))[place]? = some v) :
    ∃ before w u after vs rest, workflowsEntered registry t ws = before ++ (w, u) :: after ∧
      Step.visitsAll registry u w.steps = vs ++ v :: rest ∧
      (ws.flatMap fun w => (Step.walkAll w.steps).map fun s => (w, s))[place]? = some (w, v.step) := by
  induction ws generalizing t place with
  | nil => cases h
  | cons w others ih =>
    have along := (Step.accountsAll registry t w.steps).along
    unfold workflowsEntered visitsWithin at h
    unfold workflowsEntered
    rw [List.flatMap_cons] at h
    rw [List.flatMap_cons]
    by_cases within : place < (Step.visitsAll registry t w.steps).length
    · rw [List.getElem?_append_left within] at h
      refine ⟨[], w, t, _, _, _, rfl, entryCut h, ?_⟩
      have walked : (Step.walkAll w.steps)[place]? = some v.step := by
        obtain ⟨more, whole⟩ := along.start
        rw [← whole, List.getElem?_append_left (by rwa [List.length_map]), List.getElem?_map, h]
        rfl
      obtain ⟨bound, _⟩ := List.getElem?_eq_some_iff.mp walked
      rw [List.getElem?_append_left (by rwa [List.length_map]), List.getElem?_map, walked]
      rfl
    · have behind : (Step.visitsAll registry t w.steps).length ≤ place := Nat.le_of_not_lt within
      rw [List.getElem?_append_right behind] at h
      cases done : (w.run registry t).failure with
      | some x => rw [done] at h; cases h
      | none =>
        rw [done] at h
        obtain ⟨before, found, u, after, vs, rest, entered, visits, walked⟩ := ih h
        have whole : (Step.visitsAll registry t w.steps).length = (Step.walkAll w.steps).length := by
          rw [← along.whole done, List.length_map]
        refine ⟨(w, t) :: before, found, u, after, vs, rest, congrArg _ entered, visits, ?_⟩
        rw [List.getElem?_append_right (by rwa [List.length_map, ← whole]), List.length_map, ← whole]
        exact walked

/- What comes behind a visit in the trace begins with another step, or with a workflow. -/
def Apart (after : List Event) : Prop :=
  ∀ e ∈ after.head?, e.kind = .stepStart ∨ e.kind = .workflowStart

theorem Apart.append {a b : List Event} (h : Apart a) (k : Apart b) : Apart (a ++ b) := by
  cases a with
  | nil => exact k
  | cons e rest => exact h

theorem toldApart (registry : Registry) (w : Workflow) (levels : List (Nat × Step)) (vs : List Visit) :
    Apart (toldAlong registry w levels vs) := by
  unfold toldAlong
  induction levels.zip vs with
  | nil => exact nofun
  | cons found rest ih =>
    obtain ⟨place, v⟩ := found
    rw [List.flatMap_cons]
    cases v with
    | passed s => exact ih
    | entered s t =>
      intro e first
      cases first
      exact .inl rfl

theorem toldWithinApart (entered : List (Workflow × Tables)) :
    Apart (entered.flatMap fun found => found.1.told registry found.2) := by
  cases entered with
  | nil => exact nofun
  | cons found rest =>
    intro e first
    cases first
    exact .inr rfl

theorem workflowToldAt {w : Workflow} {u : Tables} {vs rest : List Visit} {v : Visit}
    (visits : Step.visitsAll registry u w.steps = vs ++ v :: rest) :
    ∃ level before after, w.told registry u = before ++ (v.told registry w level ++ after) ∧
      Apart after := by
  have here : (Step.walkAll w.steps)[vs.length]? = some v.step := by
    obtain ⟨more, whole⟩ := (Step.accountsAll registry u w.steps).along.start
    rw [← whole, visits]
    simp
  rw [← Step.levelsAllWalk 1 w.steps, List.getElem?_map] at here
  obtain ⟨⟨level, s⟩, at_, same⟩ := Option.map_eq_some_iff.mp here
  have front : ((Step.levelsAll 1 w.steps).take vs.length).length = vs.length :=
    List.length_take_of_le (Nat.le_of_lt (List.getElem?_eq_some_iff.mp at_).1)
  refine ⟨level, workflowEvent w :: toldAlong registry w ((Step.levelsAll 1 w.steps).take vs.length) vs,
    toldAlong registry w ((Step.levelsAll 1 w.steps).drop (vs.length + 1)) rest, ?_,
    toldApart registry w _ rest⟩
  unfold Workflow.told
  rw [visits]
  conv => lhs; rw [entryCut at_, toldAppend front, toldCons, ← List.cons_append]

/- What is told of a visit stands in the trace as a whole, under the workflow that its step has in the
walk, and what comes behind is another step's or a workflow's. -/
theorem Program.toldAt {place : Nat} {v : Visit} (h : (p.visits registry .empty)[place]? = some v) :
    ∃ w level before after, p.walk[place]? = some (w, v.step) ∧
      p.told registry .empty = before ++ (v.told registry w level ++ after) ∧ Apart after := by
  rw [Program.visitsEntered] at h
  unfold told
  unfold entered at h ⊢
  cases declared : (runDeclarations .empty p.declarations).failure with
  | some x => rw [declared] at h; cases h
  | none =>
    rw [declared] at h
    obtain ⟨before, w, u, after, vs, rest, entered, visits, walked⟩ := enteredAt h
    obtain ⟨level, front, back, told, apart⟩ := workflowToldAt visits
    dsimp only
    rw [entered, List.flatMap_append, List.flatMap_cons, told]
    refine ⟨w, level, (bindings .empty p.declarations).map (fun made => boundEvent made.1 made.2) ++
        (before.flatMap (fun found => found.1.told registry found.2) ++ front),
      back ++ after.flatMap (fun found => found.1.told registry found.2), walked, ?_,
      apart.append (toldWithinApart after)⟩
    simp only [List.append_assoc]

end

def Event.isCall (e : Event) : Bool := e.kind = .dispatch

/- The numbers under which some events tell of calls. -/
def callsTold (events : List Event) : List (Option Int) := (events.filter Event.isCall).map Event.step

theorem callsToldAppend (a b : List Event) : callsTold (a ++ b) = callsTold a ++ callsTold b := by
  unfold callsTold
  rw [List.filter_append, List.map_append]

theorem callsToldNone {events : List Event} (h : ∀ e ∈ events, e.kind ≠ .dispatch) :
    callsTold events = [] := by
  have none_ : events.filter Event.isCall = [] :=
    List.filter_eq_nil_iff.mpr fun e inside => by simp [Event.isCall, h e inside]
  rw [callsTold, none_]
  rfl

def unknownEvent (w : Workflow) (level : Nat) (id : Int) (name : String) : Event :=
  ⟨.unknown, s!"Unknown command: {name}", some w.name, some id, level + 1⟩

section
variable {registry : Registry} {p : Program} {t : Tables} {w : Workflow} {level : Nat} {s : Step}
  {c : Call}

/- Behind a call no other is told of before the next step. -/
theorem behindCalls (c : Call) (s : Step) :
    callsTold ((c.behind registry).filterMap (innerEvent? w level s)) = [] := by
  refine callsToldNone fun e inside => ?_
  obtain ⟨o, among, made⟩ := List.mem_filterMap.mp inside
  rcases c.behindQuiet registry o among with ⟨line, rfl⟩ | rfl <;> cases made <;> exact nofun

theorem visitCalls (v : Visit) :
    callsTold (v.told registry w level) = v.call?.toList.map fun c => some c.step := by
  cases v with
  | passed s => rfl
  | entered s t =>
    have start : callsTold (Visit.told registry w level (.entered s t)) =
        callsTold ((s.own registry t).occurrences.filterMap (innerEvent? w level s)) := rfl
    rw [start]
    cases h : (Visit.entered s t).call? with
    | none =>
      refine callsToldNone fun e inside => ?_
      obtain ⟨o, among, made⟩ := List.mem_filterMap.mp inside
      obtain ⟨taken, hasElse, rfl⟩ := ownSilence h o among
      cases taken <;> cases hasElse <;> cases made <;> exact nofun
    | some c =>
      obtain ⟨arguments, line, contentLine, rfl, _⟩ := called h
      rw [ownOccurs registry h]
      exact congrArg (some c.step :: ·) (behindCalls c _)

theorem alongCalls {levels : List (Nat × Step)} {vs : List Visit} (short : vs.length ≤ levels.length) :
    callsTold (toldAlong registry w levels vs) = (calls vs).map fun c => some c.step := by
  induction vs generalizing levels with
  | nil => rw [toldNothing]; rfl
  | cons v rest ih =>
    cases levels with
    | nil => cases short
    | cons place levels =>
      rw [toldCons, callsToldAppend, callsCons, List.map_append, visitCalls,
        ih (Nat.le_of_succ_le_succ short)]

theorem enteredCalls (entered : List (Workflow × Tables)) :
    callsTold (entered.flatMap fun found => found.1.told registry found.2) =
      (calls (visitsWithin registry entered)).map fun c => some c.step := by
  unfold visitsWithin calls
  induction entered with
  | nil => rfl
  | cons found rest ih =>
    have short := (Step.locatedAll registry found.1 found.2 found.1.steps).length 1
    have first : callsTold (found.1.told registry found.2) = _ := alongCalls short
    rw [List.flatMap_cons, List.flatMap_cons, callsToldAppend, List.filterMap_append,
      List.map_append, ih, first]
    rfl

/- The calls that a trace tells of are those of the run, in their order. -/
theorem Program.toldCalls (registry : Registry) (p : Program) :
    callsTold (p.told registry .empty) =
      (calls (p.visits registry .empty)).map fun c => some c.step := by
  have bound : callsTold ((bindings .empty p.declarations).map fun made =>
      boundEvent made.1 made.2) = [] := by
    refine callsToldNone fun e inside => ?_
    obtain ⟨made, _, rfl⟩ := List.mem_map.mp inside
    exact nofun
  unfold told
  rw [callsToldAppend, bound, enteredCalls, ← Program.visitsEntered]
  rfl

end
end Stepwise
