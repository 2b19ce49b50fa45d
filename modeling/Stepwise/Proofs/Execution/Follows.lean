import Stepwise.Proofs.Execution.Route

/-! Events that follow a route. Steps begin along the way that the decisions among the events leave,
each decision stands directly behind the beginning of its conditional, and what is deeper than a
conditional behind it is the way through the block that was decided on. -/
namespace Stepwise

/- Workflow and step of an event with which a step begins. -/
def Event.started? (e : Event) : Option (Option String × Option Int) :=
  if e.kind = .stepStart then some (e.workflow, e.step) else none

def Event.decision? (e : Event) : Option Bool :=
  if e.kind = .branch then some (e.message = "Condition is true, executing if block") else none

def Event.workflowStarted? (e : Event) : Option (Option String) :=
  if e.kind = .workflowStart then some e.workflow else none

def started (es : List Event) : List (Option String × Option Int) := es.filterMap Event.started?

def decisions (es : List Event) : List Bool := es.filterMap Event.decision?

def workflowsStarted (es : List Event) : List (Option String) :=
  es.filterMap Event.workflowStarted?

/- How a trace names the steps of some workflows. -/
def named (steps : List (Workflow × Step)) : List (Option String × Option Int) :=
  steps.map fun found => (some found.1.name, some found.2.id)

/- The tables behind some steps, each of which does what it does by itself. -/
def tablesBehind (registry : Registry) (t : Tables) (steps : List (Workflow × Step)) : Tables :=
  steps.foldl (fun t found => (found.2.own registry t).tables) t

/- The event that tells of a decision, directly within the step that `start` begins. -/
def branchEvent (start : Event) (taken hasElse : Bool) : Event :=
  let message := ((Occurrence.branched taken hasElse).shown?.map Prod.snd).getD ""
  ⟨.branch, message, start.workflow, start.step, start.depth + 1⟩

/- What a trace tells behind the event `start` with which a step begins, on the tables of that moment
and in a run that ends with `f`. -/
inductive Begun (w : Workflow) (s : Step) (t : Tables) (start : Event) (f : Option Failure) :
    List Event → Prop where
  | plain {after} (plain : s.condition? = none)
      (undecided : ∀ e, after.head? = some e → e.kind ≠ .branch) : Begun w s t start f after
  | stopped {condition x} (owner : s.condition? = some condition)
      (error : condition.condition t = .error x) (failed : f = some (.evaluation x)) :
      Begun w s t start f []
  | decided {condition taken inside behind} (owner : s.condition? = some condition)
      (held : condition.condition t = .ok taken) (deeper : ∀ e ∈ inside, start.depth < e.depth)
      (left : ∀ e, behind.head? = some e → e.depth ≤ start.depth)
      (order : started inside <+:
        named ((Step.routeAll (s.chosen taken) (decisions inside)).1.map fun d => (w, d)))
      (whole : behind ≠ [] ∨ f = none → started inside =
        named ((Step.routeAll (s.chosen taken) (decisions inside)).1.map fun d => (w, d))) :
      Begun w s t start f (branchEvent start taken s.hasElse :: (inside ++ behind))

/- Each decision stands directly behind the beginning of a step. -/
def Attached (es : List Event) : Prop :=
  ∀ before e after, es = before ++ e :: after → e.kind = .branch →
    ∃ earlier start, before = earlier ++ [start] ∧ start.kind = .stepStart

/- Some events of a run from the tables `t` to the tables `u`, none of them less deep than `floor`,
which follow a route. The decisions are at the beginning of those the route is given. -/
structure Follows (registry : Registry) (t : Tables) (route : Route (Workflow × Step)) (floor : Nat)
    (es : List Event) (u : Tables) (f : Option Failure) : Prop where
  order : ∀ more, started es <+: named (route (decisions es ++ more)).1
  whole : f = none → ∀ more, started es = named (route (decisions es ++ more)).1 ∧
    (route (decisions es ++ more)).2 = more ∧
    u = tablesBehind registry t (route (decisions es ++ more)).1
  deep : ∀ e ∈ es, floor ≤ e.depth
  opens : ∀ e, es.head? = some e → e.depth ≤ floor ∧ e.kind ≠ .branch
  attached : Attached es
  begun : ∀ more before start after, es = before ++ start :: after → start.kind = .stepStart →
    ∃ earlier w s later, (route (decisions es ++ more)).1 = earlier ++ (w, s) :: later ∧
      started before = named earlier ∧ start.started? = some (some w.name, some s.id) ∧
      Begun w s (tablesBehind registry t earlier) start f after

theorem startedAppend (a b : List Event) : started (a ++ b) = started a ++ started b :=
  List.filterMap_append

theorem decisionsAppend (a b : List Event) : decisions (a ++ b) = decisions a ++ decisions b :=
  List.filterMap_append

theorem namedAppend (a b : List (Workflow × Step)) : named (a ++ b) = named a ++ named b :=
  List.map_append

theorem tablesBehindAppend (registry : Registry) (t : Tables) (a b : List (Workflow × Step)) :
    tablesBehind registry t (a ++ b) = tablesBehind registry (tablesBehind registry t a) b :=
  List.foldl_append

theorem startedPast {e : Event} {es : List Event} (h : e.kind ≠ .stepStart) :
    started (e :: es) = started es := List.filterMap_cons_none (if_neg h)

theorem decisionsPast {e : Event} {es : List Event} (h : e.kind ≠ .branch) :
    decisions (e :: es) = decisions es := List.filterMap_cons_none (if_neg h)

theorem startedNone {es : List Event} (h : ∀ e ∈ es, e.kind ≠ .stepStart) : started es = [] :=
  List.filterMap_eq_nil_iff.mpr fun e inside => if_neg (h e inside)

theorem decisionsNone {es : List Event} (h : ∀ e ∈ es, e.kind ≠ .branch) : decisions es = [] :=
  List.filterMap_eq_nil_iff.mpr fun e inside => if_neg (h e inside)

theorem consCut {α : Type} {y x : α} {b before after : List α} (h : y :: b = before ++ x :: after) :
    (before = [] ∧ x = y ∧ after = b) ∨ ∃ rest, before = y :: rest ∧ b = rest ++ x :: after := by
  cases before with
  | nil => cases h; exact .inl ⟨rfl, rfl, rfl⟩
  | cons first rest =>
    obtain ⟨rfl, behind⟩ := List.cons.inj h
    exact .inr ⟨rest, rfl, behind⟩

theorem appendCut {α : Type} {a b before after : List α} {x : α}
    (h : a ++ b = before ++ x :: after) :
    (∃ rest, a = before ++ x :: rest ∧ after = rest ++ b) ∨
    ∃ rest, before = a ++ rest ∧ b = rest ++ x :: after := by
  rcases List.append_eq_append_iff.mp h with ⟨rest, here, there⟩ | ⟨rest, here, there⟩
  · exact .inr ⟨rest, here, there⟩
  · cases rest with
    | nil => exact .inr ⟨[], by simpa using here.symm, there.symm⟩
    | cons y rest =>
      obtain ⟨rfl, behind⟩ := List.cons.inj there
      exact .inl ⟨rest, here, behind⟩

theorem Begun.further {w : Workflow} {s : Step} {t : Tables} {start : Event} {after more : List Event}
    {f : Option Failure} (h : Begun w s t start none after)
    (opens : ∀ e, more.head? = some e → e.depth ≤ start.depth ∧ e.kind ≠ .branch) :
    Begun w s t start f (after ++ more) := by
  cases h with
  | plain plain undecided =>
    refine .plain plain fun e found => ?_
    cases after with
    | nil => exact (opens e found).2
    | cons first rest => exact undecided e found
  | stopped _ _ failed => cases failed
  | decided owner held deeper left order whole =>
    rw [List.cons_append, List.append_assoc]
    refine .decided owner held deeper ?_ order fun _ => whole (.inr rfl)
    intro e found
    rename_i behind
    cases behind with
    | nil => exact (opens e found).1
    | cons first rest => exact left e found

theorem Attached.append {a b : List Event} (h : Attached a) (k : Attached b) : Attached (a ++ b) := by
  intro before e after cut decided
  rcases appendCut cut with ⟨rest, here, _⟩ | ⟨rest, rfl, there⟩
  · exact h before e rest here decided
  · obtain ⟨earlier, start, rfl, begins⟩ := k rest e after there decided
    exact ⟨a ++ earlier, start, (List.append_assoc _ _ _).symm, begins⟩

theorem Attached.cons {e : Event} {es : List Event} (apart : e.kind ≠ .branch) (h : Attached es) :
    Attached (e :: es) := by
  intro before o after cut decided
  rcases consCut cut with ⟨_, rfl, _⟩ | ⟨rest, rfl, there⟩
  · exact absurd decided apart
  · obtain ⟨earlier, start, rfl, begins⟩ := h rest o after there decided
    exact ⟨e :: earlier, start, rfl, begins⟩

/- Where there is no decision. -/
theorem Attached.none {es : List Event} (h : ∀ e ∈ es, e.kind ≠ .branch) : Attached es :=
  fun before e after cut decided => absurd decided (h e (by simp [cut]))

namespace Follows

variable {registry : Registry} {t u v : Tables} {a b : Route (Workflow × Step)} {floor : Nat}
  {es others : List Event} {f : Option Failure}

theorem nothing : Follows registry t .nothing floor [] t none where
  order _ := List.nil_prefix
  whole _ _ := ⟨rfl, rfl, rfl⟩
  deep := nofun
  opens := nofun
  attached := .none nofun
  begun _ before start after cut := by cases before <;> cases cut

theorem append (first : Follows registry t a floor es u none)
    (second : Follows registry u b floor others v f) :
    Follows registry t (a.before b) floor (es ++ others) v f := by
  -- the first route takes its own decisions only and hands on those of the second
  have joined : ∀ more, (a.before b) (decisions (es ++ others) ++ more) =
      ((a (decisions es ++ (decisions others ++ more))).1 ++ (b (decisions others ++ more)).1,
        (b (decisions others ++ more)).2) := by
    intro more
    rw [decisionsAppend, List.append_assoc]
    simp only [Route.before, (first.whole rfl _).2.1]
  refine ⟨?order, ?whole, ?deep, ?opens, first.attached.append second.attached, ?begun⟩
  case order =>
    intro more
    obtain ⟨names, _, _⟩ := first.whole rfl (decisions others ++ more)
    rw [joined, startedAppend, namedAppend, names]
    exact (List.prefix_append_right_inj _).mpr (second.order more)
  case whole =>
    intro done more
    obtain ⟨names, _, tables⟩ := first.whole rfl (decisions others ++ more)
    obtain ⟨names', left, tables'⟩ := second.whole done more
    rw [joined, startedAppend, namedAppend, names, names', tablesBehindAppend, ← tables]
    exact ⟨rfl, left, tables'⟩
  case deep =>
    intro e inside
    exact (List.mem_append.mp inside).elim (first.deep e) (second.deep e)
  case opens =>
    intro e found
    cases es with
    | nil => exact second.opens e found
    | cons x rest => exact first.opens e found
  case begun =>
    intro more before start after cut begins
    obtain ⟨names, _, tables⟩ := first.whole rfl (decisions others ++ more)
    rcases appendCut cut with ⟨rest, here, rfl⟩ | ⟨rest, rfl, there⟩
    · obtain ⟨earlier, w, s, later, there, names, itself, begun⟩ :=
        first.begun (decisions others ++ more) before start rest here begins
      refine ⟨earlier, w, s, later ++ (b (decisions others ++ more)).1, ?_, names, itself, ?_⟩
      · rw [joined, there, List.append_assoc, List.cons_append]
      · refine begun.further fun e found => ?_
        obtain ⟨low, undecided⟩ := second.opens e found
        have high := first.deep start (by simp [here])
        exact ⟨Nat.le_trans low high, undecided⟩
    · obtain ⟨earlier, w, s, later, there, names', itself, begun⟩ :=
        second.begun more rest start after there begins
      refine ⟨(a (decisions es ++ (decisions others ++ more))).1 ++ earlier, w, s, later,
        ?_, ?_, itself, ?_⟩
      · rw [joined, there, List.append_assoc]
      · rw [startedAppend, namedAppend, names, names']
      · rw [tablesBehindAppend, ← tables]
        exact begun

/- Where a part of a run fails, what lies behind it on the way is not come to. -/
theorem stopped {x : Failure} (h : Follows registry t a floor es u (some x))
    (b : Route (Workflow × Step)) : Follows registry t (a.before b) floor es u (some x) where
  order more := (h.order more).trans (by
    simp only [Route.before, namedAppend]
    exact List.prefix_append _ _)
  whole := nofun
  deep := h.deep
  opens := h.opens
  attached := h.attached
  begun more before start after cut begins := by
    obtain ⟨earlier, w, s, later, there, rest⟩ := h.begun more before start after cut begins
    refine ⟨earlier, w, s, later ++ (b (a (decisions es ++ more)).2).1, ?_, rest⟩
    simp only [Route.before, there, List.append_assoc, List.cons_append]

/- Nothing is told of a way that is not come to. -/
theorem unreached (a : Route (Workflow × Step)) (floor : Nat) (x : Failure) :
    Follows registry t a floor [] t (some x) where
  order _ := List.nil_prefix
  whole := nofun
  deep := nofun
  opens := nofun
  attached := .none nofun
  begun _ before start after cut := by cases before <;> cases cut

/- An event in front that is about no step. -/
theorem behind {e : Event} {lower : Nat} (h : Follows registry t a floor es u f)
    (apart : e.kind ≠ .stepStart ∧ e.kind ≠ .branch) (level : e.depth = lower)
    (low : lower ≤ floor) : Follows registry t a lower (e :: es) u f := by
  refine ⟨?order, ?whole, ?deep, ?opens, h.attached.cons apart.2, ?begun⟩
  case order =>
    rw [startedPast apart.1, decisionsPast apart.2]
    exact h.order
  case whole =>
    rw [startedPast apart.1, decisionsPast apart.2]
    exact h.whole
  case deep =>
    intro o inside
    rcases List.mem_cons.mp inside with rfl | inside
    · exact Nat.le_of_eq level.symm
    · exact Nat.le_trans low (h.deep o inside)
  case opens =>
    intro o found
    cases found
    exact ⟨Nat.le_of_eq level, apart.2⟩
  case begun =>
    intro more before start after cut begins
    rcases consCut cut with ⟨_, rfl, _⟩ | ⟨rest, rfl, there⟩
    · exact absurd begins apart.1
    · rw [startedPast apart.1, decisionsPast apart.2]
      exact h.begun more rest start after there begins

theorem behindAll (h : Follows registry t a 0 es u f) (front : List Event)
    (apart : ∀ e ∈ front, (e.kind ≠ .stepStart ∧ e.kind ≠ .branch) ∧ e.depth = 0) :
    Follows registry t a 0 (front ++ es) u f := by
  induction front with
  | nil => exact h
  | cons e rest ih =>
    obtain ⟨first, later⟩ := List.forall_mem_cons.mp apart
    exact (ih later).behind first.1 first.2 (Nat.le_refl 0)

end Follows

/- The event with which a step of a workflow begins. -/
def startEvent (w : Workflow) (s : Step) (depth : Nat) : Event :=
  ⟨.stepStart, s!"Step {s.id}:", some w.name, some s.id, depth⟩

theorem startedStart (w : Workflow) (s : Step) (depth : Nat) (es : List Event) :
    started (startEvent w s depth :: es) = (some w.name, some s.id) :: started es := rfl

theorem decisionsStart (w : Workflow) (s : Step) (depth : Nat) (es : List Event) :
    decisions (startEvent w s depth :: es) = decisions es := decisionsPast nofun

theorem startedBranch (start : Event) (taken hasElse : Bool) (es : List Event) :
    started (branchEvent start taken hasElse :: es) = started es := startedPast nofun

theorem decisionsBranch (start : Event) (taken hasElse : Bool) (es : List Event) :
    decisions (branchEvent start taken hasElse :: es) = taken :: decisions es := by
  cases taken <;> cases hasElse <;> rfl

namespace Follows

variable {registry : Registry} {t u : Tables} {floor : Nat} {es : List Event} {f : Option Failure}
  {w : Workflow} {s : Step}

/- A step that decides nothing, and what it tells within itself. -/
theorem alone (plain : s.condition? = none)
    (talk : ∀ e ∈ es, e.depth = floor + 1 ∧ e.kind ≠ .stepStart ∧ e.kind ≠ .branch)
    (done : f = none → u = (s.own registry t).tables) :
    Follows registry t (.alone (w, s)) floor (startEvent w s floor :: es) u f := by
  have silent : started es = [] := startedNone fun e inside => (talk e inside).2.1
  have undecided : ∀ e ∈ es, e.kind ≠ .branch := fun e inside => (talk e inside).2.2
  refine ⟨?order, ?whole, ?deep, ?opens, .cons nofun (.none undecided), ?begun⟩
  case order =>
    intro more
    rw [startedStart, silent]
    exact List.prefix_refl _
  case whole =>
    intro ok more
    rw [startedStart, silent, decisionsStart, decisionsNone undecided]
    exact ⟨rfl, rfl, done ok⟩
  case deep =>
    intro e inside
    rcases List.mem_cons.mp inside with rfl | inside
    · exact Nat.le_refl floor
    · exact (talk e inside).1.symm ▸ Nat.le_succ floor
  case opens =>
    intro e found
    cases found
    exact ⟨Nat.le_refl floor, nofun⟩
  case begun =>
    intro more before start after cut begins
    rcases consCut cut with ⟨rfl, rfl, rfl⟩ | ⟨before, rfl, rfl⟩
    · refine ⟨[], w, s, [], rfl, rfl, rfl, .plain plain fun e found => ?_⟩
      exact undecided e (List.mem_of_mem_head? found)
    · exact absurd begins (talk start (by simp)).2.1

/- A conditional whose condition cannot be evaluated. -/
theorem undecidable {condition : Expr} {x : EvalError} (owner : s.condition? = some condition)
    (error : condition.condition t = .error x) (everything : List (Workflow × Step))
    (way : Bool → Route (Workflow × Step)) :
    Follows registry t (.deciding (w, s) everything way) floor [startEvent w s floor] t
      (some (.evaluation x)) := by
  have first : ∀ decisions, ∃ later,
      (Route.deciding (w, s) everything way decisions).1 = (w, s) :: later := by
    intro decisions
    cases decisions <;> exact ⟨_, rfl⟩
  refine ⟨?order, nofun, ?deep, ?opens, .cons nofun (.none nofun), ?begun⟩
  case order =>
    intro more
    obtain ⟨later, way⟩ := first more
    exact way ▸ List.cons_prefix_cons.mpr ⟨rfl, List.nil_prefix⟩
  case deep =>
    intro e inside
    exact (List.mem_singleton.mp inside) ▸ Nat.le_refl floor
  case opens =>
    intro e found
    cases found
    exact ⟨Nat.le_refl floor, nofun⟩
  case begun =>
    intro more before start after cut begins
    obtain ⟨later, way⟩ := first more
    rcases consCut cut with ⟨rfl, rfl, rfl⟩ | ⟨rest, rfl, there⟩
    · exact ⟨[], w, s, later, way, rfl, rfl, .stopped owner error rfl⟩
    · cases rest <;> cases there

/- A conditional, with what is told of the block that it runs. -/
theorem decided {condition : Expr} {taken : Bool} (owner : s.condition? = some condition)
    (held : condition.condition t = .ok taken) (own : (s.own registry t).tables = t)
    (everything : List (Workflow × Step))
    (h : Follows registry t ((Step.routeAll (s.chosen taken)).map fun d => (w, d)) (floor + 1) es u f) :
    Follows registry t (.deciding (w, s) everything fun taken =>
        (Step.routeAll (s.chosen taken)).map fun d => (w, d)) floor
      (startEvent w s floor :: branchEvent (startEvent w s floor) taken s.hasElse :: es) u f := by
  have names : started (startEvent w s floor ::
      branchEvent (startEvent w s floor) taken s.hasElse :: es) =
        (some w.name, some s.id) :: started es := by
    rw [startedStart, startedBranch]
  have choices : decisions (startEvent w s floor ::
      branchEvent (startEvent w s floor) taken s.hasElse :: es) = taken :: decisions es := by
    rw [decisionsStart, decisionsBranch]
  refine ⟨?order, ?whole, ?deep, ?opens, ?attached, ?begun⟩
  case order =>
    intro more
    rw [names, choices]
    exact List.cons_prefix_cons.mpr ⟨rfl, h.order more⟩
  case whole =>
    intro done more
    obtain ⟨inside, left, tables⟩ := h.whole done more
    rw [names, choices]
    refine ⟨congrArg _ inside, left, ?_⟩
    rw [tables]
    change _ = tablesBehind registry (s.own registry t).tables _
    rw [own]
    rfl
  case deep =>
    intro e inside
    rcases List.mem_cons.mp inside with rfl | inside
    · exact Nat.le_refl floor
    · rcases List.mem_cons.mp inside with rfl | inside
      · exact Nat.le_succ floor
      · exact Nat.le_of_succ_le (h.deep e inside)
  case opens =>
    intro e found
    cases found
    exact ⟨Nat.le_refl floor, nofun⟩
  case attached =>
    intro before e after cut decided
    rcases consCut cut with ⟨_, rfl, _⟩ | ⟨rest, rfl, there⟩
    · cases decided
    · rcases consCut there with ⟨rfl, rfl, _⟩ | ⟨inner, rfl, within⟩
      · exact ⟨[], _, rfl, rfl⟩
      · obtain ⟨earlier, start, rfl, begins⟩ := h.attached inner e after within decided
        exact ⟨_ :: _ :: earlier, start, rfl, begins⟩
  case begun =>
    intro more before start after cut begins
    rw [choices]
    rcases consCut cut with ⟨rfl, rfl, rfl⟩ | ⟨rest, rfl, there⟩
    · refine ⟨[], w, s, _, rfl, rfl, rfl, ?_⟩
      have order := h.order []
      rw [List.append_nil] at order
      rw [← List.append_nil es]
      refine .decided owner held h.deep nofun order ?_
      rintro (more | done)
      · exact absurd rfl more
      · have whole := (h.whole done []).1
        rw [List.append_nil] at whole
        exact whole
    · rcases consCut there with ⟨rfl, rfl, _⟩ | ⟨inner, rfl, within⟩
      · cases begins
      · obtain ⟨earlier, w', d, later, way, named, itself, begun⟩ :=
          h.begun more inner start after within begins
        refine ⟨(w, s) :: earlier, w', d, later, congrArg _ way, ?_, itself, ?_⟩
        · rw [startedStart, startedBranch, named]
          rfl
        · change Begun w' d (tablesBehind registry (s.own registry t).tables earlier) start f after
          rw [own]
          exact begun

end Follows
end Stepwise
