import Stepwise.Proofs.Execution.Order

/-! Where in its program an event belongs. The trace of a run is what the elements that it comes to
tell, each in its own place: a declaration outside of all workflows, a workflow outside of all steps,
and a step on the level on which it is nested, with what it does by itself one level deeper. Nothing
of the place is left over from the events before. -/
namespace Stepwise

namespace Step

mutual

/- The walk of a step, each step of it with its level. What lies in a block is nested one level deeper
than the conditional that the block belongs to. -/
def levels (level : Nat) : Step → List (Nat × Step)
  | .ifOnly id condition body line contentLine =>
      (level, .ifOnly id condition body line contentLine) :: levelsAll (level + 1) body
  | .ifElse id condition body other line contentLine =>
      (level, .ifElse id condition body other line contentLine) ::
        (levelsAll (level + 1) body ++ levelsAll (level + 1) other)
  | .command id name arguments line contentLine =>
      [(level, .command id name arguments line contentLine)]
  | .absent id line => [(level, .absent id line)]

def levelsAll (level : Nat) : List Step → List (Nat × Step)
  | [] => []
  | step :: rest => levels level step ++ levelsAll level rest

end

mutual

theorem levelsWalk (level : Nat) : (s : Step) → (s.levels level).map Prod.snd = s.walk
  | .command .. | .absent .. => rfl
  | .ifOnly _ _ body _ _ => congrArg _ (levelsAllWalk (level + 1) body)
  | .ifElse _ _ body other _ _ => by
      simp only [levels, walk, List.map_cons, List.map_append, levelsAllWalk]

theorem levelsAllWalk (level : Nat) : (steps : List Step) →
    (levelsAll level steps).map Prod.snd = walkAll steps
  | [] => rfl
  | s :: rest => by simp only [levelsAll, walkAll, List.map_append, levelsWalk, levelsAllWalk]

end

theorem levelsFirst (s : Step) (level : Nat) : ∃ rest, s.levels level = (level, s) :: rest := by
  cases s <;> exact ⟨_, rfl⟩

end Step

/- The event that something done by a step on this level makes. -/
def innerEvent? (w : Workflow) (level : Nat) (s : Step) (o : Occurrence) : Option Event :=
  o.shown?.map fun shown => ⟨shown.1, shown.2, some w.name, some s.id, level + 1⟩

/- What is told of a visit to a step on this level. -/
def Visit.told (registry : Registry) (w : Workflow) (level : Nat) : Visit → List Event
  | .entered s t => startEvent w s level ::
      (s.own registry t).occurrences.filterMap (innerEvent? w level s)
  | .passed _ => []

/- What is told of visits along some steps with their levels. -/
def toldAlong (registry : Registry) (w : Workflow) (levels : List (Nat × Step)) (vs : List Visit) :
    List Event :=
  (levels.zip vs).flatMap fun found => found.2.told registry w found.1.1

def workflowEvent (w : Workflow) : Event :=
  ⟨.workflowStart, s!"Executing workflow: {w.name}", some w.name, none, 0⟩

/- What is told of a workflow that is entered with these tables. -/
def Workflow.told (registry : Registry) (t : Tables) (w : Workflow) : List Event :=
  workflowEvent w ::
    toldAlong registry w (Step.levelsAll 1 w.steps) (Step.visitsAll registry t w.steps)

def boundEvent (d : Declaration) (value : String) : Event :=
  ⟨.bound, s!"Variable '{d.name}' = '{value}' ({d.keyword})", none, none, 0⟩

/- The declarations that come to be bound, each with its value. -/
def bindings (t : Tables) : List Declaration → List (Declaration × String)
  | [] => []
  | d :: rest => match d.value.eval t with
      | .error _ => []
      | .ok value => (d, value) :: bindings (t.bind d.name value) rest

/- The workflows that are entered, each with the tables of that moment. -/
def workflowsEntered (registry : Registry) (t : Tables) : List Workflow → List (Workflow × Tables)
  | [] => []
  | w :: rest => (w, t) :: match (w.run registry t).failure with
      | some _ => []
      | none => workflowsEntered registry (w.run registry t).tables rest

namespace Program

def entered (registry : Registry) (t : Tables) (p : Program) : List (Workflow × Tables) :=
  match (runDeclarations t p.declarations).failure with
  | some _ => []
  | none => workflowsEntered registry (runDeclarations t p.declarations).tables p.workflows

/- What is told of a program on its own. -/
def told (registry : Registry) (t : Tables) (p : Program) : List Event :=
  (bindings t p.declarations).map (fun made => boundEvent made.1 made.2) ++
    (p.entered registry t).flatMap fun found => found.1.told registry found.2

end Program

section
variable {registry : Registry} {w : Workflow} {a b : List (Nat × Step)} {vs ws : List Visit}

theorem toldNothing (levels : List (Nat × Step)) : toldAlong registry w levels [] = [] := by
  unfold toldAlong
  rw [List.zip_nil_right, List.flatMap_nil]

theorem toldCons (level : Nat) (s : Step) (v : Visit) : toldAlong registry w ((level, s) :: a) (v :: vs) =
    v.told registry w level ++ toldAlong registry w a vs := rfl

theorem toldPassed (levels : List (Nat × Step)) (steps : List Step) :
    toldAlong registry w levels (Step.passedAll steps) = [] := by
  unfold toldAlong Step.passedAll
  rw [List.flatMap_eq_nil_iff]
  intro found inside
  obtain ⟨s, _, passed⟩ := List.mem_map.mp (List.of_mem_zip inside).2
  rw [← passed]
  rfl

theorem toldAppend (same : a.length = vs.length) : toldAlong registry w (a ++ b) (vs ++ ws) =
    toldAlong registry w a vs ++ toldAlong registry w b ws := by
  unfold toldAlong
  rw [List.zip_append same, List.flatMap_append]

/- Steps that are not come to add nothing. -/
theorem toldShort (short : vs.length ≤ a.length) (b : List (Nat × Step)) :
    toldAlong registry w (a ++ b) vs = toldAlong registry w a vs := by
  have cut (c : List (Nat × Step)) : toldAlong registry w (a.take vs.length ++ c) vs =
      toldAlong registry w (a.take vs.length) vs := by
    have apart : toldAlong registry w (a.take vs.length ++ c) (vs ++ []) = _ :=
      toldAppend (List.length_take_of_le short)
    rw [List.append_nil, toldNothing, List.append_nil] at apart
    exact apart
  calc toldAlong registry w (a ++ b) vs
      = toldAlong registry w (a.take vs.length ++ (a.drop vs.length ++ b)) vs := by
        rw [← List.append_assoc, List.take_append_drop]
    _ = toldAlong registry w (a.take vs.length ++ a.drop vs.length) vs := (cut _).trans (cut _).symm
    _ = toldAlong registry w a vs := by rw [List.take_append_drop]

end

/- A part of a run within a workflow tells of its visits in their places: they follow some steps, and
the steps stand one level deeper than the trace does before the part. -/
structure Located (registry : Registry) (w : Workflow) (walk : List Step)
    (levels : Nat → List (Nat × Step)) (vs : List Visit) (r : Run) : Prop where
  levelled : ∀ level, (levels level).map Prod.snd = walk
  along : Along walk vs r.failure
  told : ∀ q : Position, q.workflow = some w.name →
    q.events r.occurrences = toldAlong registry w (levels (q.depth + 1)) vs

namespace Located

variable {registry : Registry} {w : Workflow} {walk walk' : List Step}
  {levels levels' : Nat → List (Nat × Step)} {vs ws : List Visit} {r : Run} {t : Tables} {s : Step}

theorem passedAll (t : Tables) (steps : List Step) :
    Located registry w (Step.walkAll steps) (fun level => Step.levelsAll level steps)
      (Step.passedAll steps) (.done t) :=
  ⟨fun level => Step.levelsAllWalk level steps, .passedAll steps, fun _ _ => (toldPassed _ _).symm⟩

theorem length (h : Located registry w walk levels vs r) (level : Nat) :
    vs.length ≤ (levels level).length := by
  have bound := h.along.start.length_le
  rwa [List.length_map, ← h.levelled level, List.length_map] at bound

theorem wholeLength (h : Located registry w walk levels vs r) (done : r.failure = none)
    (level : Nat) : (levels level).length = vs.length := by
  have same := congrArg List.length (h.along.whole done)
  rwa [← h.levelled level, List.length_map, List.length_map, eq_comm] at same

theorem andThen (next : Tables → Run) (first : Located registry w walk levels vs r)
    (stays : ∀ q : Position, (q.afterAll r.occurrences).workflow = q.workflow)
    (flat : Balanced r.occurrences)
    (second : Located registry w walk' levels' ws (next r.tables)) :
    Located registry w (walk ++ walk') (fun level => levels level ++ levels' level)
      (vs ++ Step.onward r ws) (r.andThen next) where
  levelled level := by rw [List.map_append, first.levelled, second.levelled]
  along := first.along.andThen next second.along
  told q inside := by
    cases h : r.failure with
    | some x =>
      rw [Run.andThenStopped h, first.told q inside]
      simp only [Step.onward, h, List.append_nil]
      exact (toldShort (first.length _) _).symm
    | none =>
      have behind := second.told (q.afterAll r.occurrences) ((stays q).trans inside)
      rw [flat q] at behind
      rw [Run.andThenDone h]
      simp only [Step.onward, h]
      rw [Position.eventsAppend, first.told q inside, behind,
        toldAppend (first.wholeLength h _)]

theorem toldInside {q : Position} (inside : q.workflow = some w.name) (s : Step)
    {os : List Occurrence} (spoken : ∀ o ∈ os, o.isSpoken = true) :
    (q.after (.stepEntered s.id)).events os = os.filterMap (innerEvent? w (q.depth + 1) s) := by
  induction os with
  | nil => rfl
  | cons o rest ih =>
    obtain ⟨first, later⟩ := List.forall_mem_cons.mp spoken
    cases o with
    | dispatched | said | unknown =>
      simp only [Position.events, List.filterMap_cons, innerEvent?, Occurrence.shown?, ← inside]
      exact congrArg _ (ih later)
    | _ => cases first

/- A step that stops by itself, or that nothing lies in. -/
theorem alone (spoken : ∀ o ∈ (s.own registry t).occurrences, o.isSpoken = true)
    (ends : (s.own registry t).failure = none → s.walk = [s]) :
    Located registry w s.walk (fun level => s.levels level) [.entered s t]
      ((s.own registry t).within s.id) := by
  refine ⟨fun level => Step.levelsWalk level s, ⟨?_, fun done => (ends done).symm⟩, fun q inside => ?_⟩
  · obtain ⟨rest, first⟩ := Step.levelsFirst s 0
    rw [← Step.levelsWalk 0 s, first]
    exact List.cons_prefix_cons.mpr ⟨rfl, List.nil_prefix⟩
  · obtain ⟨rest, first⟩ := Step.levelsFirst s (q.depth + 1)
    rw [Traced.eventsStep inside, toldInside inside s spoken, first, toldCons, toldNothing,
      List.append_nil]
    rfl

theorem stopped {f : Failure} (own : s.own registry t = .failed t f) :
    Located registry w s.walk (fun level => s.levels level) [.entered s t]
      ((Run.failed t f).within s.id) := by
  rw [← own]
  exact .alone (by rw [own]; nofun) (by rw [own]; nofun)

variable (levels) in
theorem decided {taken : Bool} (held : s.own registry t = .noted t (.branched taken s.hasElse))
    (first : s.walk = s :: walk)
    (under : ∀ level, s.levels level = (level, s) :: levels (level + 1))
    (h : Located registry w walk levels vs r) :
    Located registry w s.walk (fun level => s.levels level) (.entered s t :: vs)
      (Run.within s.id ⟨.branched taken s.hasElse :: r.occurrences, r.tables, r.failure⟩) := by
  refine ⟨fun level => Step.levelsWalk level s, first ▸ h.along.cons, fun q inside => ?_⟩
  have behind := h.told (q.after (.stepEntered s.id)) inside
  rw [Traced.eventsStep inside, Traced.eventsBranched inside, under, behind, toldCons]
  simp only [Visit.told, held, Run.noted]
  cases taken <;> cases s.hasElse <;> rfl

end Located

namespace Step

mutual

theorem located (registry : Registry) (w : Workflow) (t : Tables) : (s : Step) →
    Located registry w s.walk (fun level => s.levels level) (s.visits registry t) (s.run registry t)
  | .command id name arguments line contentLine =>
      .alone (s := .command id name arguments line contentLine)
        (commandSpeaks registry t id name arguments) fun _ => rfl
  | .ifOnly id condition body line contentLine => by
      simp only [visits, run]
      cases h : condition.condition t with
      | error e =>
        exact .stopped (s := .ifOnly id condition body line contentLine) (by simp only [own, h])
      | ok taken =>
        refine .decided (s := .ifOnly id condition body line contentLine)
          (fun level => levelsAll level body) (by simp only [own, h]; rfl) rfl (fun _ => rfl) ?_
        cases taken with
        | true => exact locatedAll registry w t body
        | false => exact .passedAll t body
  | .ifElse id condition body other line contentLine => by
      simp only [visits, run]
      cases h : condition.condition t with
      | error e =>
        exact .stopped (s := .ifElse id condition body other line contentLine)
          (by simp only [own, h])
      | ok taken =>
        refine .decided (s := .ifElse id condition body other line contentLine)
          (fun level => levelsAll level body ++ levelsAll level other)
          (by simp only [own, h]; rfl) rfl (fun _ => rfl) ?_
        cases taken with
        | true =>
          have joined := Located.andThen Run.done (locatedAll registry w t body)
            (tracedAll registry w t body).stays (balancedAll registry t body) (.passedAll _ other)
          rw [Run.andThenNothing] at joined
          exact joined
        | false =>
          exact Located.andThen (fun t => runAll registry t other) (.passedAll t body) (fun _ => rfl)
            .nothing (locatedAll registry w t other)
  | .absent id line => .alone (s := .absent id line) nofun nofun

theorem locatedAll (registry : Registry) (w : Workflow) (t : Tables) : (steps : List Step) →
    Located registry w (walkAll steps) (fun level => levelsAll level steps)
      (visitsAll registry t steps) (runAll registry t steps)
  | [] => .passedAll t []
  | s :: rest => .andThen (fun t => runAll registry t rest) (located registry w t s)
      (traced registry w t s).stays (balanced registry t s) (locatedAll registry w _ rest)

end

end Step

theorem workflowTells (registry : Registry) (t : Tables) (w : Workflow) (q : Position) :
    q.events (w.run registry t).occurrences = w.told registry t :=
  congrArg (workflowEvent w :: ·)
    ((Step.locatedAll registry w t w.steps).told (q.after (.workflowEntered w.name)) rfl)

theorem workflowsTell (registry : Registry) (t : Tables) (ws : List Workflow) (q : Position) :
    q.events (runWorkflows registry t ws).occurrences =
      (workflowsEntered registry t ws).flatMap fun found => found.1.told registry found.2 := by
  induction ws generalizing t q with
  | nil => rfl
  | cons w rest ih =>
    unfold runWorkflows workflowsEntered
    rw [List.flatMap_cons]
    cases h : (w.run registry t).failure with
    | some x =>
      rw [Run.andThenStopped h, workflowTells]
      exact (List.append_nil _).symm
    | none =>
      rw [Run.andThenDone h]
      dsimp only
      rw [Position.eventsAppend, workflowTells, ih]

/- A trace that has come to no workflow yet names none. -/
theorem declarationsTellAll (t : Tables) (ds : List Declaration) (q : Position)
    (outside : q.workflow = none ∧ q.step = none) :
    q.events (runDeclarations t ds).occurrences =
      (bindings t ds).map fun made => boundEvent made.1 made.2 := by
  induction ds generalizing t with
  | nil => rfl
  | cons d rest ih =>
    unfold runDeclarations bindings Declaration.run
    cases d.value.eval t with
    | error x => rfl
    | ok value =>
      rw [Run.andThenNoted, List.map_cons, ← ih]
      simp only [Position.events, Position.after, Occurrence.shown?, outside.1, outside.2]
      rfl

/- The trace of a run is what is told of the program in its places. -/
theorem Program.tells (registry : Registry) (p : Program) :
    Position.start.events (p.run registry .empty).occurrences = p.told registry .empty := by
  unfold run told entered
  rw [← declarationsTellAll _ _ .start ⟨rfl, rfl⟩]
  cases h : (runDeclarations .empty p.declarations).failure with
  | some x =>
    rw [Run.andThenStopped h]
    exact (List.append_nil _).symm
  | none =>
    rw [Run.andThenDone h]
    dsimp only
    rw [Position.eventsAppend, workflowsTell]

theorem Executor.freshTells (registry : Registry) (p : Program) :
    ((Executor.fresh registry).execute p).events = p.told registry .empty :=
  p.tells registry

/-! What the places are. -/

theorem enteredWithin {registry : Registry} {ws : List Workflow} {t u : Tables} {w : Workflow}
    (h : (w, u) ∈ workflowsEntered registry t ws) : w ∈ ws := by
  induction ws generalizing t with
  | nil => cases h
  | cons first rest ih =>
    unfold workflowsEntered at h
    rcases List.mem_cons.mp h with same | later
    · cases same
      exact List.mem_cons_self
    · split at later
      · cases later
      · exact List.mem_cons_of_mem _ (ih later)

theorem Program.enteredWithin {registry : Registry} {p : Program} {t u : Tables} {w : Workflow}
    (h : (w, u) ∈ p.entered registry t) : w ∈ p.workflows := by
  unfold entered at h
  split at h
  · cases h
  · exact Stepwise.enteredWithin h

theorem zipAligned {levels : List (Nat × Step)} {vs : List Visit} {level : Nat} {s : Step} {v : Visit}
    (along : vs.map Visit.step <+: levels.map Prod.snd) (h : ((level, s), v) ∈ levels.zip vs) :
    v.step = s := by
  induction levels generalizing vs with
  | nil => cases h
  | cons found levels ih =>
    cases vs with
    | nil => cases h
    | cons first vs =>
      obtain ⟨same, further⟩ := List.cons_prefix_cons.mp along
      rcases List.mem_cons.mp h with here | later
      · cases here
        exact same
      · exact ih further later

/- By itself a step speaks as a command, or decides. -/
theorem ownTalk {registry : Registry} {t : Tables} {s : Step} {o : Occurrence}
    (h : o ∈ (s.own registry t).occurrences) :
    o.isSpoken = true ∨ ∃ taken hasElse, o = .branched taken hasElse := by
  cases s with
  | command id name arguments => exact .inl (commandSpeaks registry t id name arguments o h)
  | absent => cases h
  | ifOnly | ifElse =>
    simp only [Step.own] at h
    split at h
    · cases h
    · exact .inr ⟨_, _, List.mem_singleton.mp h⟩

theorem visitTold {registry : Registry} {w : Workflow} {level : Nat} {s : Step} {t : Tables} {e : Event}
    (h : e ∈ (Visit.entered s t).told registry w level) :
    (e.kind ≠ .bound ∧ e.kind ≠ .workflowStart) ∧ e.workflow = some w.name ∧ e.step = some s.id ∧
      e.depth = if e.kind = .stepStart then level else level + 1 := by
  rcases List.mem_cons.mp h with rfl | inner
  · exact ⟨⟨nofun, nofun⟩, rfl, rfl, rfl⟩
  · obtain ⟨o, inside, made⟩ := List.mem_filterMap.mp inner
    obtain ⟨⟨kind, message⟩, found, rfl⟩ := Option.map_eq_some_iff.mp made
    have deeper : kind ≠ .bound ∧ kind ≠ .workflowStart ∧ kind ≠ .stepStart := by
      rcases ownTalk inside with spoken | ⟨taken, hasElse, rfl⟩
      · cases o with
        | dispatched | said | unknown => cases found; exact ⟨nofun, nofun, nofun⟩
        | _ => cases spoken
      · cases taken <;> cases hasElse <;> cases found <;> exact ⟨nofun, nofun, nofun⟩
    exact ⟨⟨deeper.1, deeper.2.1⟩, rfl, rfl, (if_neg deeper.2.2).symm⟩

theorem Program.toldCases {registry : Registry} {p : Program} {e : Event}
    (h : e ∈ p.told registry .empty) : (∃ d value, e = boundEvent d value) ∨
    ∃ w ∈ p.workflows, e = workflowEvent w ∨ ∃ level s t, (level, s) ∈ Step.levelsAll 1 w.steps ∧
      e ∈ (Visit.entered s t).told registry w level := by
  rcases List.mem_append.mp h with declared | told
  · obtain ⟨made, _, rfl⟩ := List.mem_map.mp declared
    exact .inl ⟨made.1, made.2, rfl⟩
  · obtain ⟨⟨w, u⟩, entered, inside⟩ := List.mem_flatMap.mp told
    refine .inr ⟨w, enteredWithin entered, ?_⟩
    rcases List.mem_cons.mp inside with start | inner
    · exact .inl start
    · obtain ⟨⟨⟨level, s⟩, v⟩, paired, tells⟩ := List.mem_flatMap.mp inner
      have along := (Step.locatedAll registry w u w.steps).along.start
      rw [← Step.levelsAllWalk 1 w.steps] at along
      have same := zipAligned along paired
      cases v with
      | passed d => cases tells
      | entered d t =>
        cases same
        exact .inr ⟨level, d, t, (List.of_mem_zip paired).1, tells⟩

/-! How deep a trace stands, over any number of runs. -/

/- Wherever a step is left among these occurrences, the trace stands within a step. -/
def Enclosed (os : List Occurrence) : Prop :=
  ∀ (q : Position) before after, os = before ++ .stepLeft :: after → 0 < (q.afterAll before).depth

namespace Enclosed

variable {a b : List Occurrence}

theorem silent (h : .stepLeft ∉ a) : Enclosed a :=
  fun _ before _ cut => absurd (cut ▸ List.mem_append_right before List.mem_cons_self) h

theorem nothing : Enclosed [] := silent List.not_mem_nil

theorem append (h : Enclosed a) (k : Enclosed b) : Enclosed (a ++ b) := by
  intro q before after cut
  rcases appendCut cut with ⟨rest, here, _⟩ | ⟨rest, rfl, there⟩
  · exact h q before rest here
  · rw [afterAppend]
    exact k (q.afterAll a) rest after there

theorem cons {o : Occurrence} (apart : o ≠ .stepLeft) (h : Enclosed a) : Enclosed (o :: a) :=
  (silent fun inside => apart (List.mem_singleton.mp inside).symm).append h

theorem within {r : Run} (h : Enclosed r.occurrences) (flat : Balanced r.occurrences) (id : Int) :
    Enclosed (r.within id).occurrences := by
  intro q before after cut
  rcases consCut cut with ⟨_, other, _⟩ | ⟨inner, rfl, there⟩
  · cases other
  · change 0 < ((q.after (.stepEntered id)).afterAll inner).depth
    rcases appendCut there with ⟨rest, here, _⟩ | ⟨rest, rfl, last⟩
    · exact h _ inner rest here
    · -- the step itself is left where what it does has come back to its own level
      cases rest with
      | nil =>
        rw [List.append_nil, flat]
        exact Nat.succ_pos q.depth
      | cons o rest => cases rest <;> cases last

theorem andThen {r : Run} {next : Tables → Run} (h : Enclosed r.occurrences)
    (k : ∀ t, Enclosed (next t).occurrences) : Enclosed (r.andThen next).occurrences := by
  cases first : r.failure with
  | some f =>
    rw [Run.andThenStopped first]
    exact h
  | none =>
    rw [Run.andThenDone first]
    exact h.append (k _)

end Enclosed

theorem commandEnclosed (registry : Registry) (t : Tables) (id : Int) (name : String)
    (arguments : List Expr) : Enclosed (runCommand registry t id name arguments).occurrences :=
  .silent fun inside => by cases commandSpeaks registry t id name arguments _ inside

theorem conditionalEnclosed (registry : Registry) (t : Tables) {s : Step} {condition : Expr}
    (owner : s.condition? = some condition)
    (block : ∀ taken t, Enclosed (Step.runAll registry t (s.chosen taken)).occurrences) :
    Enclosed (s.run registry t).occurrences := by
  rw [Step.runConditional registry t owner]
  cases condition.condition t with
  | error e => exact Enclosed.within .nothing .nothing s.id
  | ok taken =>
    have decision : Enclosed [.branched taken s.hasElse] := .cons nofun .nothing
    refine Enclosed.within (.andThen decision (block taken)) (.andThen ?_ fun t => ?_) s.id
    · exact .cons (fun _ => rfl) .nothing
    · exact Step.balancedAll registry t (s.chosen taken)

namespace Step

mutual

theorem enclosed (registry : Registry) (t : Tables) : (s : Step) →
    Enclosed (s.run registry t).occurrences
  | .command id name arguments _ _ => by
      simp only [run]
      exact (commandEnclosed registry t id name arguments).within
        (commandBalanced registry t id name arguments) id
  | .ifOnly _ _ body _ _ => conditionalEnclosed registry t rfl fun
      | true => fun t => enclosedAll registry t body
      | false => fun _ => .nothing
  | .ifElse _ _ body other _ _ => conditionalEnclosed registry t rfl fun
      | true => fun t => enclosedAll registry t body
      | false => fun t => enclosedAll registry t other
  | .absent id _ => by
      simp only [run]
      exact Enclosed.within .nothing .nothing id

theorem enclosedAll (registry : Registry) (t : Tables) : (steps : List Step) →
    Enclosed (runAll registry t steps).occurrences
  | [] => .nothing
  | s :: rest => .andThen (enclosed registry t s) fun t => enclosedAll registry t rest

end

end Step

theorem workflowsEnclosed (registry : Registry) (t : Tables) (ws : List Workflow) :
    Enclosed (runWorkflows registry t ws).occurrences := by
  induction ws generalizing t with
  | nil => exact .nothing
  | cons w rest ih =>
    have first : Enclosed (w.run registry t).occurrences :=
      .cons nofun (Step.enclosedAll registry t w.steps)
    exact first.andThen ih

theorem Program.enclosed (registry : Registry) (t : Tables) (p : Program) :
    Enclosed (p.run registry t).occurrences := by
  refine Enclosed.andThen (.silent fun inside => ?_) fun t =>
    workflowsEnclosed registry t p.workflows
  obtain ⟨keyword, name, value, other⟩ := declarationsBind t p.declarations _ inside
  cases other

/- An executor that has executed some programs, one after the other. -/
def Executor.after (x : Executor) (ps : List Program) : Executor :=
  ps.foldl (fun x p => (x.execute p).executor) x

/- The trace of an executor stands outside of all steps, a program is told on it as deep as on a
fresh one, and no step that is left takes away more than the step had added. -/
structure Executor.Level (x : Executor) (p : Program) : Prop where
  outside : x.position.depth = 0
  depths : (x.execute p).events.map Event.depth =
    (({ x with position := .start } : Executor).execute p).events.map Event.depth
  enclosed : ∀ before after, (p.run x.registry x.tables).occurrences = before ++ .stepLeft :: after →
    0 < (x.position.afterAll before).depth

theorem Executor.level {x : Executor} (outside : x.position.depth = 0) (p : Program) : x.Level p where
  outside := outside
  depths := by
    have shapes := congrArg (List.map fun shape : EventKind × String × Nat => shape.2.2)
      (Position.eventsShape (q := .start) outside (p.run x.registry x.tables).occurrences)
    rw [List.map_map, List.map_map] at shapes
    exact shapes
  enclosed := p.enclosed x.registry x.tables x.position

end Stepwise
