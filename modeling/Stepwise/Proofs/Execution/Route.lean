import Stepwise.Proofs.Execution.Visits

/-! The way of a run through its program, as its decisions leave it: of each conditional only the
block that was decided on lies on the way, and nothing is taken off behind the last decision. -/
namespace Stepwise

/- What lies on a way, given the decisions to come, and which of these are left at its end. -/
abbrev Route (α : Type) := List Bool → List α × List Bool

namespace Route

variable {α β : Type}

def nothing : Route α := fun decisions => ([], decisions)

def alone (a : α) : Route α := fun decisions => ([a], decisions)

def before (a b : Route α) : Route α := fun decisions =>
  ((a decisions).1 ++ (b (a decisions).2).1, (b (a decisions).2).2)

/- Something that decides on the way behind it. While that is open, everything lies on the way. -/
def deciding (a : α) (everything : List α) (way : Bool → Route α) : Route α
  | [] => (a :: everything, [])
  | taken :: decisions => (a :: (way taken decisions).1, (way taken decisions).2)

def map (f : α → β) (a : Route α) : Route β := fun decisions =>
  ((a decisions).1.map f, (a decisions).2)

theorem mapBefore (f : α → β) (a b : Route α) :
    (a.before b).map f = (a.map f).before (b.map f) := by
  funext decisions
  simp only [map, before, List.map_append]

theorem mapDeciding (f : α → β) (a : α) (everything : List α) (way : Bool → Route α) :
    (deciding a everything way).map f =
      deciding (f a) (everything.map f) fun taken => (way taken).map f := by
  funext decisions
  cases decisions <;> rfl

/- Decisions only take off. -/
def Thins (a : Route α) (everything : List α) : Prop := ∀ decisions, (a decisions).1.Sublist everything

namespace Thins

variable {a b : Route α} {as bs : List α}

theorem nothing : Thins (nothing : Route α) bs := fun _ => List.nil_sublist bs

theorem before (h : a.Thins as) (k : b.Thins bs) : (a.before b).Thins (as ++ bs) :=
  fun decisions => (h decisions).append (k (a decisions).2)

theorem deciding (x : α) {way : Bool → Route α} (h : ∀ taken, (way taken).Thins as) :
    (deciding x as way).Thins (x :: as) := by
  intro decisions
  cases decisions with
  | nil => exact List.Sublist.refl _
  | cons taken rest => exact (h taken rest).cons_cons x

theorem map (h : a.Thins as) (f : α → β) : (a.map f).Thins (as.map f) :=
  fun decisions => (h decisions).map f

end Thins
end Route

namespace Step

mutual

def route : Step → Route Step
  | .command id name arguments line contentLine =>
      .alone (.command id name arguments line contentLine)
  | .ifOnly id condition body line contentLine =>
      .deciding (.ifOnly id condition body line contentLine) (walkAll body) fun
        | true => routeAll body
        | false => .nothing
  | .ifElse id condition body other line contentLine =>
      .deciding (.ifElse id condition body other line contentLine)
        (walkAll body ++ walkAll other) fun
        | true => routeAll body
        | false => routeAll other
  | .absent id line => .alone (.absent id line)

def routeAll : List Step → Route Step
  | [] => .nothing
  | step :: rest => (route step).before (routeAll rest)

end

theorem routePlain {s : Step} (plain : s.condition? = none) : s.route = .alone s := by
  cases s with
  | command | absent => rfl
  | ifOnly | ifElse => cases plain

/- Behind a conditional comes the way through the block that it runs. -/
theorem routeConditional {s : Step} {condition : Expr} (owner : s.condition? = some condition) :
    ∃ everything, s.route = .deciding s everything fun taken => routeAll (s.chosen taken) := by
  cases s with
  | command | absent => cases owner
  | ifOnly id condition body =>
    refine ⟨walkAll body, ?_⟩
    simp only [route]
    congr 1
    funext taken
    cases taken <;> rfl
  | ifElse id condition body other =>
    refine ⟨walkAll body ++ walkAll other, ?_⟩
    simp only [route]
    congr 1
    funext taken
    cases taken <;> rfl

mutual

theorem routeThins : (s : Step) → s.route.Thins s.walk
  | .command .. | .absent .. => fun _ => List.Sublist.refl _
  | .ifOnly _ _ body _ _ => .deciding _ fun
      | true => routeAllThins body
      | false => .nothing
  | .ifElse _ _ body other _ _ => .deciding _ fun
      | true => fun decisions => (routeAllThins body decisions).trans (List.sublist_append_left _ _)
      | false => fun decisions =>
          (routeAllThins other decisions).trans (List.sublist_append_right _ _)

theorem routeAllThins : (steps : List Step) → (routeAll steps).Thins (walkAll steps)
  | [] => .nothing
  | s :: rest => (routeThins s).before (routeAllThins rest)

end

end Step

def routeWorkflows : List Workflow → Route (Workflow × Step)
  | [] => .nothing
  | w :: rest => ((Step.routeAll w.steps).map fun s => (w, s)).before (routeWorkflows rest)

theorem routeWorkflowsThins (ws : List Workflow) : (routeWorkflows ws).Thins
    (ws.flatMap fun w => (Step.walkAll w.steps).map fun s => (w, s)) := by
  induction ws with
  | nil => exact .nothing
  | cons w rest ih => exact ((Step.routeAllThins w.steps).map _).before ih

/- The walk of a program without the steps of the branches that were decided against. -/
def Program.route (p : Program) (decisions : List Bool) : List (Workflow × Step) :=
  (routeWorkflows p.workflows decisions).1

end Stepwise
