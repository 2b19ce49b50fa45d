import Stepwise.Proofs.Execution.Visits

/-! How deep a trace stands. A step leaves as deep as it was entered, also when it fails, so that a
program begins and ends outside of all steps; how an occurrence is shown hangs on the depth alone. -/
namespace Stepwise

/- After these occurrences a trace stands as deep as before. -/
def Balanced (os : List Occurrence) : Prop := ∀ p : Position, (p.afterAll os).depth = p.depth

/- After these occurrences a trace stands outside of all steps if it did so before. -/
def Grounded (os : List Occurrence) : Prop :=
  ∀ p : Position, p.depth = 0 → (p.afterAll os).depth = 0

theorem afterAppend (p : Position) (a b : List Occurrence) :
    p.afterAll (a ++ b) = (p.afterAll a).afterAll b := List.foldl_append

namespace Balanced

variable {a b : List Occurrence}

theorem nothing : Balanced [] := fun _ => rfl

theorem append (h : Balanced a) (k : Balanced b) : Balanced (a ++ b) := by
  intro p
  rw [afterAppend, k, h]

theorem cons {o : Occurrence} (flat : ∀ p : Position, p.after o = p) (h : Balanced a) :
    Balanced (o :: a) := by
  intro p
  change ((p.after o).afterAll a).depth = p.depth
  rw [flat, h]

theorem within {r : Run} (h : Balanced r.occurrences) (id : Int) : Balanced (r.within id).occurrences := by
  intro p
  change ((p.after (.stepEntered id)).afterAll (r.occurrences ++ [.stepLeft])).depth = p.depth
  rw [afterAppend]
  change ((p.after (.stepEntered id)).afterAll r.occurrences).depth - 1 = p.depth
  rw [h]
  rfl

theorem andThen {r : Run} {next : Tables → Run} (h : Balanced r.occurrences)
    (k : ∀ t, Balanced (next t).occurrences) : Balanced (r.andThen next).occurrences := by
  cases first : r.failure with
  | some f =>
    rw [Run.andThenStopped first]
    exact h
  | none =>
    rw [Run.andThenDone first]
    exact h.append (k _)

end Balanced

theorem spokenAfter {os : List Occurrence} (h : ∀ o ∈ os, o.isSpoken = true) (q : Position) :
    q.afterAll os = q := by
  induction os with
  | nil => rfl
  | cons o rest ih =>
    obtain ⟨first, later⟩ := List.forall_mem_cons.mp h
    have flat : q.after o = q := by cases o <;> first | rfl | cases first
    change (q.after o).afterAll rest = q
    rw [flat, ih later]

theorem commandBalanced (registry : Registry) (t : Tables) (id : Int) (name : String)
    (arguments : List Expr) : Balanced (runCommand registry t id name arguments).occurrences := by
  intro p
  rw [spokenAfter (commandSpeaks registry t id name arguments)]

theorem declarationsBalanced (t : Tables) (ds : List Declaration) :
    Balanced (runDeclarations t ds).occurrences := by
  induction ds generalizing t with
  | nil => exact .nothing
  | cons d rest ih =>
    have first : Balanced (d.run t).occurrences := by
      unfold Declaration.run
      cases d.value.eval t with
      | error x => exact .nothing
      | ok value => exact .cons (fun _ => rfl) .nothing
    exact first.andThen ih

theorem conditionalBalanced (registry : Registry) (t : Tables) {s : Step} {condition : Expr}
    (owner : s.condition? = some condition)
    (block : ∀ taken t, Balanced (Step.runAll registry t (s.chosen taken)).occurrences) :
    Balanced (s.run registry t).occurrences := by
  rw [Step.runConditional registry t owner]
  refine Balanced.within ?_ s.id
  cases condition.condition t with
  | error e => exact .nothing
  | ok taken => exact Balanced.andThen (.cons (fun _ => rfl) .nothing) (block taken)

namespace Step

mutual

theorem balanced (registry : Registry) (t : Tables) : (s : Step) →
    Balanced (s.run registry t).occurrences
  | .command id name arguments _ _ => (commandBalanced registry t id name arguments).within id
  | .ifOnly _ _ body _ _ => conditionalBalanced registry t rfl fun
      | true => fun t => balancedAll registry t body
      | false => fun _ => .nothing
  | .ifElse _ _ body other _ _ => conditionalBalanced registry t rfl fun
      | true => fun t => balancedAll registry t body
      | false => fun t => balancedAll registry t other
  | .absent id _ => by
      simp only [run]
      exact Balanced.within .nothing id

theorem balancedAll (registry : Registry) (t : Tables) : (steps : List Step) →
    Balanced (runAll registry t steps).occurrences
  | [] => .nothing
  | s :: rest => Balanced.andThen (balanced registry t s) fun t => balancedAll registry t rest

end

end Step

namespace Grounded

theorem andThen {r : Run} {next : Tables → Run} (h : Grounded r.occurrences)
    (k : ∀ t, Grounded (next t).occurrences) : Grounded (r.andThen next).occurrences := by
  cases first : r.failure with
  | some f =>
    rw [Run.andThenStopped first]
    exact h
  | none =>
    rw [Run.andThenDone first]
    intro p ground
    rw [afterAppend]
    exact k _ _ (h p ground)

end Grounded

theorem workflowsGrounded (registry : Registry) (t : Tables) (ws : List Workflow) :
    Grounded (runWorkflows registry t ws).occurrences := by
  induction ws generalizing t with
  | nil => exact fun _ ground => ground
  | cons w rest ih =>
    have first : Grounded (w.run registry t).occurrences :=
      fun p _ => Step.balancedAll registry t w.steps (p.after (.workflowEntered w.name))
    exact first.andThen ih

/- A program ends outside of all steps, whether it fails or not. -/
theorem Program.grounded (registry : Registry) (t : Tables) (p : Program) :
    Grounded (p.run registry t).occurrences := by
  have declared : Grounded (runDeclarations t p.declarations).occurrences :=
    fun q ground => (declarationsBalanced t p.declarations q).trans ground
  exact declared.andThen fun t => workflowsGrounded registry t p.workflows

theorem Position.eventsAppend (q : Position) (a b : List Occurrence) :
    q.events (a ++ b) = q.events a ++ (q.afterAll a).events b := by
  induction a generalizing q with
  | nil => rfl
  | cons o rest ih =>
    simp only [List.cons_append, events, ih, List.append_assoc]
    rfl

/- What of an event does not hang on the workflow and the step that are current. -/
def Event.shape (e : Event) : EventKind × String × Nat := (e.kind, e.message, e.depth)

/- Two traces that stand equally deep show the same occurrences alike. -/
theorem Position.eventsShape {p q : Position} (same : p.depth = q.depth) (os : List Occurrence) :
    (p.events os).map Event.shape = (q.events os).map Event.shape := by
  induction os generalizing p q with
  | nil => rfl
  | cons o rest ih =>
    have depth : (p.after o).depth = (q.after o).depth := by
      cases o <;> simp [after, same]
    have shown : ∀ kind, (p.after o).depthOf kind = (q.after o).depthOf kind := by
      intro kind
      cases kind <;> simp [depthOf, depth]
    simp only [events, List.map_append, ih depth]
    cases o.shown? with
    | none => rfl
    | some e => simp [Event.shape, shown]

end Stepwise
