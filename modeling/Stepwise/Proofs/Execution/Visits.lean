import Stepwise.Execution

/-! A run laid out along the walk of its program. Each step of the walk is visited in turn: entered,
with the tables of that moment, or passed over together with the branch it lies in. Where a run
stops, the list ends with the step that stopped it. The list is a journey: what happens at each
place is what the step does by itself, whatever blocks it lies in. -/
namespace Stepwise

inductive Visit where
  | entered (step : Step) (tables : Tables)
  | passed (step : Step)

def Visit.step : Visit → Step
  | .entered step _ | .passed step => step

theorem entryCut {α : Type} {l : List α} {place : Nat} {v : α} (h : l[place]? = some v) :
    l = l.take place ++ v :: l.drop (place + 1) := by
  obtain ⟨inside, at_⟩ := List.getElem?_eq_some_iff.mp h
  rw [← at_, ← List.drop_eq_getElem_cons inside, List.take_append_drop]

namespace Run

theorem ofParts {a b : Run} (occurrences : a.occurrences = b.occurrences)
    (tables : a.tables = b.tables) (failure : a.failure = b.failure) : a = b := by
  cases a
  cases b
  cases occurrences
  cases tables
  cases failure
  rfl

theorem andThenStopped {r : Run} {f : Failure} (h : r.failure = some f) (next : Tables → Run) :
    r.andThen next = r := by
  unfold andThen
  rw [h]

theorem andThenDone {r : Run} (h : r.failure = none) (next : Tables → Run) :
    r.andThen next = ⟨r.occurrences ++ (next r.tables).occurrences, (next r.tables).tables,
      (next r.tables).failure⟩ := by
  unfold andThen
  rw [h]

theorem andThenNoted (t : Tables) (o : Occurrence) (next : Tables → Run) :
    (noted t o).andThen next = ⟨o :: (next t).occurrences, (next t).tables, (next t).failure⟩ := rfl

theorem andThenAssoc (r : Run) (f g : Tables → Run) :
    (r.andThen f).andThen g = r.andThen fun t => (f t).andThen g := by
  cases h : r.failure with
  | some x => rw [andThenStopped h, andThenStopped h, andThenStopped h]
  | none =>
    rw [andThenDone h, andThenDone h]
    cases h' : (f r.tables).failure with
    | some x => rw [andThenStopped h', andThenStopped rfl, h']
    | none => rw [andThenDone h', andThenDone rfl, List.append_assoc]

theorem andThenNothing (r : Run) : r.andThen done = r := by
  cases h : r.failure with
  | some x => exact andThenStopped h done
  | none =>
    rw [andThenDone h]
    simp only [done, List.append_nil, ← h]

theorem andThenDoneIff {r : Run} {next : Tables → Run} :
    (r.andThen next).failure = none ↔ r.failure = none ∧ (next r.tables).failure = none := by
  cases h : r.failure with
  | some x => rw [andThenStopped h, h]; simp
  | none => rw [andThenDone h]; simp

end Run

namespace Step

def condition? : Step → Option Expr
  | .ifOnly _ condition .. | .ifElse _ condition .. => some condition
  | _ => none

def hasElse : Step → Bool
  | .ifElse .. => true
  | _ => false

/- The block that a conditional runs. -/
def chosen (taken : Bool) : Step → List Step
  | .ifOnly _ _ body _ _ => if taken then body else []
  | .ifElse _ _ body other _ _ => if taken then body else other
  | _ => []

theorem runConditional (registry : Registry) (t : Tables) {s : Step} {condition : Expr}
    (owner : s.condition? = some condition) :
    s.run registry t = (match condition.condition t with
      | .error e => Run.failed t (.evaluation e)
      | .ok taken => (Run.noted t (.branched taken s.hasElse)).andThen fun t =>
          runAll registry t (s.chosen taken)).within s.id := by
  cases s with
  | command | absent => cases owner
  | ifOnly id condition body line contentLine =>
    cases owner
    simp only [run]
    cases condition.condition t with
    | error e => rfl
    | ok taken => cases taken <;> rfl
  | ifElse id condition body other line contentLine =>
    cases owner
    simp only [run]
    cases condition.condition t with
    | error e => rfl
    | ok taken => cases taken <;> rfl

/- What a step does by itself. The steps within a conditional are steps of the walk of their own. -/
def own (registry : Registry) (t : Tables) : Step → Run
  | .command id name arguments _ _ => runCommand registry t id name arguments
  | .ifOnly _ condition _ _ _ =>
      match condition.condition t with
      | .error e => .failed t (.evaluation e)
      | .ok taken => .noted t (.branched taken false)
  | .ifElse _ condition _ _ _ _ =>
      match condition.condition t with
      | .error e => .failed t (.evaluation e)
      | .ok taken => .noted t (.branched taken true)
  | .absent _ _ => .failed t .absentContent

theorem ownConditional (registry : Registry) {t : Tables} {s : Step} {condition : Expr} {taken : Bool}
    (owner : s.condition? = some condition) (held : condition.condition t = .ok taken) :
    (s.own registry t).tables = t := by
  cases s with
  | command | absent => cases owner
  | ifOnly | ifElse =>
    cases owner
    simp only [own, held]
    rfl

/- Visits that come about only behind a run that did not fail. -/
def onward (r : Run) (next : List Visit) : List Visit :=
  match r.failure with
  | some _ => []
  | none => next

theorem onwardNothing (r : Run) : onward r [] = [] := by
  unfold onward
  cases r.failure <;> rfl

def passedAll (steps : List Step) : List Visit := (walkAll steps).map .passed

mutual

def visits (registry : Registry) (t : Tables) : Step → List Visit
  | .command id name arguments line contentLine =>
      [.entered (.command id name arguments line contentLine) t]
  | .ifOnly id condition body line contentLine =>
      .entered (.ifOnly id condition body line contentLine) t ::
        match condition.condition t with
        | .error _ => []
        | .ok true => visitsAll registry t body
        | .ok false => passedAll body
  | .ifElse id condition body other line contentLine =>
      .entered (.ifElse id condition body other line contentLine) t ::
        match condition.condition t with
        | .error _ => []
        | .ok true => visitsAll registry t body ++ onward (runAll registry t body) (passedAll other)
        | .ok false => passedAll body ++ visitsAll registry t other
  | .absent id line => [.entered (.absent id line) t]

def visitsAll (registry : Registry) (t : Tables) : List Step → List Visit
  | [] => []
  | step :: rest =>
      visits registry t step ++
        onward (run registry t step) (visitsAll registry (run registry t step).tables rest)

end

end Step

inductive Journey (registry : Registry) : Tables → List Visit → Tables → Option Failure → Prop where
  | home (t) : Journey registry t [] t none
  | passed {t vs u f} (s) (rest : Journey registry t vs u f) :
      Journey registry t (.passed s :: vs) u f
  | entered {t s vs u f} (done : (s.own registry t).failure = none)
      (rest : Journey registry (s.own registry t).tables vs u f) :
      Journey registry t (.entered s t :: vs) u f
  | stopped {t s f} (failed : (s.own registry t).failure = some f) :
      Journey registry t [.entered s t] (s.own registry t).tables (some f)

namespace Journey

variable {registry : Registry} {t u v : Tables} {a b : List Visit} {f : Option Failure}

theorem append (first : Journey registry t a u none) (second : Journey registry u b v f) :
    Journey registry t (a ++ b) v f := by
  generalize h : (none : Option Failure) = g at first
  induction first with
  | home t => exact second
  | passed s rest ih => exact .passed s (ih second h)
  | entered done rest ih => exact .entered done (ih second h)
  | stopped failed => cases h

theorem passedAll (t : Tables) (steps : List Step) :
    Journey registry t (Step.passedAll steps) t none := by
  unfold Step.passedAll
  induction Step.walkAll steps with
  | nil => exact .home t
  | cons s rest ih => exact .passed s ih

/- A step that decides on a branch goes on from the tables it was entered with. -/
theorem branched {s : Step} (o : Occurrence) (own : s.own registry t = .noted t o)
    (rest : Journey registry t a u f) : Journey registry t (.entered s t :: a) u f := by
  apply Journey.entered
  · rw [own]; rfl
  · rw [own]; exact rest

theorem stoppedAt {s : Step} {x : Failure} (own : s.own registry t = .failed t x) :
    Journey registry t [.entered s t] t (some x) := by
  have stop : (s.own registry t).failure = some x := by rw [own]; rfl
  have step := Journey.stopped stop
  rw [own] at step
  exact step

theorem alone (s : Step) :
    Journey registry t [.entered s t] (s.own registry t).tables (s.own registry t).failure := by
  cases h : (s.own registry t).failure with
  | none => exact .entered h (.home _)
  | some x => exact .stopped h

theorem andThen {r : Run} (next : Tables → Run) (first : Journey registry t a r.tables r.failure)
    (second : Journey registry r.tables b (next r.tables).tables (next r.tables).failure) :
    Journey registry t (a ++ Step.onward r b) (r.andThen next).tables
      (r.andThen next).failure := by
  cases h : r.failure with
  | some x =>
    rw [Run.andThenStopped h]
    simpa only [Step.onward, h, List.append_nil] using first
  | none =>
    rw [Run.andThenDone h]
    simp only [Step.onward, h]
    exact append (h ▸ first) second

end Journey

/- The visits follow the walk, and a run that does not fail follows it to its end. -/
structure Along (walk : List Step) (vs : List Visit) (f : Option Failure) : Prop where
  start : vs.map Visit.step <+: walk
  whole : f = none → vs.map Visit.step = walk

namespace Along

variable {a b : List Step} {vs ws : List Visit}

theorem ofEq {f : Option Failure} (h : vs.map Visit.step = a) : Along a vs f :=
  ⟨h ▸ List.prefix_refl _, fun _ => h⟩

theorem passedAll (steps : List Step) {f : Option Failure} :
    Along (Step.walkAll steps) (Step.passedAll steps) f := by
  apply ofEq
  unfold Step.passedAll
  rw [List.map_map]
  exact List.map_id _

theorem cons {s : Step} {t : Tables} {f : Option Failure} (h : Along a vs f) :
    Along (s :: a) (.entered s t :: vs) f where
  start := List.cons_prefix_cons.mpr ⟨rfl, h.start⟩
  whole := fun done => congrArg (s :: ·) (h.whole done)

theorem andThen {r : Run} (next : Tables → Run) (first : Along a vs r.failure)
    (second : Along b ws (next r.tables).failure) :
    Along (a ++ b) (vs ++ Step.onward r ws) (r.andThen next).failure := by
  cases h : r.failure with
  | some x =>
    rw [Run.andThenStopped h, h]
    simp only [Step.onward, h, List.append_nil]
    exact ⟨first.start.trans (List.prefix_append a b), fun done => by cases done⟩
  | none =>
    rw [Run.andThenDone h]
    simp only [Step.onward, h]
    have same := first.whole h
    constructor
    · rw [List.map_append, same]
      exact (List.prefix_append_right_inj a).mpr second.start
    · intro done
      rw [List.map_append, same, second.whole done]

end Along

def Occurrence.entered? : Occurrence → Option Int
  | .stepEntered id => some id
  | _ => none

def Visit.entered? : Visit → Option Int
  | .entered step _ => some step.id
  | .passed _ => none

/- The steps that a run tells of entering are those that its visits enter. -/
def Told (r : Run) (vs : List Visit) : Prop :=
  r.occurrences.filterMap Occurrence.entered? = vs.filterMap Visit.entered?

namespace Told

variable {r : Run} {vs ws : List Visit}

theorem passedAll (t : Tables) (steps : List Step) : Told (.done t) (Step.passedAll steps) := by
  unfold Told Step.passedAll
  rw [List.filterMap_map]
  exact (List.filterMap_eq_nil_iff.mpr fun _ _ => rfl).symm

theorem within {s : Step} {t : Tables} (h : Told r vs) :
    Told (r.within s.id) (.entered s t :: vs) := by
  unfold Told at h ⊢
  simp [Run.within, h, List.filterMap_append, Occurrence.entered?, Visit.entered?]

theorem andThen (next : Tables → Run) (first : Told r vs) (second : Told (next r.tables) ws) :
    Told (r.andThen next) (vs ++ Step.onward r ws) := by
  unfold Told at first second ⊢
  cases h : r.failure with
  | some x =>
    rw [Run.andThenStopped h]
    simp only [Step.onward, h, List.append_nil, first]
  | none =>
    rw [Run.andThenDone h]
    simp only [Step.onward, h, List.filterMap_append, first, second]

end Told

/- What a command tells by itself. -/
def Occurrence.isSpoken : Occurrence → Bool
  | .dispatched .. | .said _ | .unknown .. => true
  | _ => false

theorem commandSpeaks (registry : Registry) (t : Tables) (id : Int) (name : String)
    (arguments : List Expr) :
    ∀ o ∈ (runCommand registry t id name arguments).occurrences, o.isSpoken = true := by
  unfold runCommand
  cases Expr.evalAll t arguments with
  | error x => exact nofun
  | ok values =>
    dsimp only
    cases registry.dispatch? name values with
    | none => simp [Occurrence.isSpoken]
    | some reply =>
      obtain ⟨lines, outcome⟩ := reply
      have spoken : ∀ o ∈ Occurrence.dispatched name values :: lines.map .said,
          o.isSpoken = true := by simp [Occurrence.isSpoken]
      cases outcome with
      | result r => exact spoken
      | nothing =>
        intro o inside
        rcases List.mem_append.mp inside with here | last
        · exact spoken o here
        · rw [List.mem_singleton.mp last]; rfl
      | failed message => exact spoken

theorem commandTold (registry : Registry) (t : Tables) (id : Int) (name : String)
    (arguments : List Expr) : Told (runCommand registry t id name arguments) [] := by
  refine List.filterMap_eq_nil_iff.mpr fun o inside => ?_
  have spoken := commandSpeaks registry t id name arguments o inside
  cases o with
  | stepEntered id => cases spoken
  | _ => rfl

/- What a list of visits has to do with a run: it is a journey through the tables of the run, follows
the walk, and enters the steps that the run tells of entering. -/
structure Accounts (registry : Registry) (t : Tables) (walk : List Step) (vs : List Visit)
    (r : Run) : Prop where
  journey : Journey registry t vs r.tables r.failure
  along : Along walk vs r.failure
  told : Told r vs

namespace Accounts

variable {registry : Registry} {t : Tables} {a b : List Step} {vs ws : List Visit} {r : Run}
  {s : Step}

theorem passedAll (t : Tables) (steps : List Step) :
    Accounts registry t (Step.walkAll steps) (Step.passedAll steps) (.done t) :=
  ⟨.passedAll t steps, .passedAll steps, .passedAll t steps⟩

theorem andThen (next : Tables → Run) (first : Accounts registry t a vs r)
    (second : Accounts registry r.tables b ws (next r.tables)) :
    Accounts registry t (a ++ b) (vs ++ Step.onward r ws) (r.andThen next) :=
  ⟨.andThen next first.journey second.journey, .andThen next first.along second.along,
    .andThen next first.told second.told⟩

theorem alone (told : Told (s.own registry t) []) :
    Accounts registry t [s] [.entered s t] ((s.own registry t).within s.id) :=
  ⟨.alone s, .ofEq rfl, told.within⟩

theorem branched {o : Occurrence} (own : s.own registry t = .noted t o) (inner : o.entered? = none)
    (rest : Accounts registry t a vs r) : Accounts registry t (s :: a) (.entered s t :: vs)
      (Run.within s.id ⟨o :: r.occurrences, r.tables, r.failure⟩) := by
  refine ⟨.branched o own rest.journey, .cons rest.along, Told.within ?_⟩
  exact (List.filterMap_cons_none inner).trans rest.told

theorem stopped {f : Failure} (own : s.own registry t = .failed t f) (a : List Step) :
    Accounts registry t (s :: a) [.entered s t] ((Run.failed t f).within s.id) := by
  refine ⟨.stoppedAt own, ⟨?_, fun done => by cases done⟩, Told.within rfl⟩
  exact List.cons_prefix_cons.mpr ⟨rfl, List.nil_prefix⟩

end Accounts

/- A property of some steps with the visits along them and their run, which commands and what fails
have by themselves, and which is handed on to decisions, to what is passed over and to one part behind
another. -/
structure HandedOn (registry : Registry) (P : Tables → List Step → List Visit → Run → Prop) : Prop where
  command (t : Tables) (id : Int) (name : String) (arguments : List Expr) (line contentLine : Option Nat) :
    P t [.command id name arguments line contentLine]
      [.entered (.command id name arguments line contentLine) t]
      ((runCommand registry t id name arguments).within id)
  stopped {t : Tables} {s : Step} {f : Failure} (own : s.own registry t = .failed t f) (a : List Step) :
    P t (s :: a) [.entered s t] ((Run.failed t f).within s.id)
  decided {t : Tables} {s : Step} {taken hasElse : Bool} {a : List Step} {vs : List Visit} {r : Run}
    (own : s.own registry t = .noted t (.branched taken hasElse)) (block : P t a vs r) :
    P t (s :: a) (.entered s t :: vs)
      (Run.within s.id ⟨.branched taken hasElse :: r.occurrences, r.tables, r.failure⟩)
  passed (t : Tables) (steps : List Step) : P t (Step.walkAll steps) (Step.passedAll steps) (.done t)
  behind {t : Tables} {a b : List Step} {vs ws : List Visit} {r : Run} (next : Tables → Run)
    (first : P t a vs r) (second : P r.tables b ws (next r.tables)) :
    P t (a ++ b) (vs ++ Step.onward r ws) (r.andThen next)

namespace HandedOn

variable {registry : Registry} {P : Tables → List Step → List Visit → Run → Prop}

mutual

theorem step (h : HandedOn registry P) (t : Tables) : (s : Step) →
    P t s.walk (s.visits registry t) (s.run registry t)
  | .command id name arguments line contentLine => h.command t id name arguments line contentLine
  | .ifOnly id condition body line contentLine => by
      simp only [Step.visits, Step.run, Step.walk]
      cases found : condition.condition t with
      | error e =>
        exact h.stopped (s := .ifOnly id condition body line contentLine)
          (by simp only [Step.own, found]) _
      | ok taken =>
        refine h.decided (s := .ifOnly id condition body line contentLine)
          (by simp only [Step.own, found]) ?_
        cases taken with
        | true => exact steps h t body
        | false => exact h.passed t body
  | .ifElse id condition body other line contentLine => by
      simp only [Step.visits, Step.run, Step.walk]
      cases found : condition.condition t with
      | error e =>
        exact h.stopped (s := .ifElse id condition body other line contentLine)
          (by simp only [Step.own, found]) _
      | ok taken =>
        refine h.decided (s := .ifElse id condition body other line contentLine)
          (by simp only [Step.own, found]) ?_
        cases taken with
        | true =>
          have joined := h.behind Run.done (steps h t body) (h.passed _ other)
          rw [Run.andThenNothing] at joined
          exact joined
        | false =>
          exact h.behind (fun t => Step.runAll registry t other) (h.passed t body) (steps h t other)
  | .absent id line => h.stopped (s := .absent id line) rfl []

theorem steps (h : HandedOn registry P) (t : Tables) : (ss : List Step) →
    P t (Step.walkAll ss) (Step.visitsAll registry t ss) (Step.runAll registry t ss)
  | [] => h.passed t []
  | s :: rest => h.behind (fun t => Step.runAll registry t rest) (step h t s) (steps h _ rest)

end

end HandedOn

theorem Accounts.handedOn (registry : Registry) : HandedOn registry (Accounts registry) where
  command t id name arguments _ _ := .alone (commandTold registry t id name arguments)
  stopped := .stopped
  decided own block := .branched own rfl block
  passed := .passedAll
  behind := .andThen

theorem Step.accounts (registry : Registry) (t : Tables) (s : Step) :
    Accounts registry t s.walk (s.visits registry t) (s.run registry t) :=
  (Accounts.handedOn registry).step t s

theorem Step.accountsAll (registry : Registry) (t : Tables) (steps : List Step) :
    Accounts registry t (walkAll steps) (visitsAll registry t steps) (runAll registry t steps) :=
  (Accounts.handedOn registry).steps t steps

end Stepwise
