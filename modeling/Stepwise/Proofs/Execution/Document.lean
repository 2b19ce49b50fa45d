import Mathlib
import Stepwise.Document
import Stepwise.Proofs.Execution.Answers
import Stepwise.Proofs.Execution.Context
import Stepwise.Proofs.Grammar.Numbers
import Stepwise.Proofs.Json.Restored

/-! The document of a run. It is read back as a value, and the value gives back all that the document
was to tell: of every event its kind, its message and its place, every result under its number, and the
message of the failure. -/
namespace Stepwise

/- What a document tells of an event. -/
structure EventView where
  kind : String
  message : String
  workflow : Option String
  step : Option Int
  deriving DecidableEq

structure RunView where
  trace : List EventView
  steps : List (String × StepResult)
  error : Option String
  deriving DecidableEq

def Event.view (e : Event) : EventView := ⟨e.kind.label, e.message, e.workflow, e.step⟩

def Execution.view (x : Execution) : RunView :=
  ⟨x.events.map Event.view, x.executor.tables.results.entries.map fun e => (toString e.1, e.2),
    x.failure.map Failure.message⟩

namespace Json

def field? (name : String) : Json → Option Json
  | .object members => members.lookup name
  | _ => none

def text? : Json → Option String
  | .string text => some text
  | _ => none

def integer? : Json → Option Int
  | .integer value => some value
  | _ => none

def bool? : Json → Option Bool
  | .bool value => some value
  | _ => none

/- A field that may be left out. -/
def optional? {α : Type} (read : Json → Option α) : Option Json → Option (Option α)
  | none => some none
  | some value => (read value).map some

def event? (value : Json) : Option EventView := do
  let kind ← value.field? "eventType" >>= text?
  let message ← value.field? "message" >>= text?
  let workflow ← optional? text? (value.field? "workflow")
  let step ← optional? integer? (value.field? "stepId")
  return ⟨kind, message, workflow, step⟩

def result? (value : Json) : Option StepResult := do
  let success ← value.field? "success" >>= bool?
  let data ← value.field? "data" >>= text?
  let status ← value.field? "status" >>= integer?
  let message ← value.field? "message" >>= text?
  return ⟨success, data, status, message⟩

def trace? : Json → Option (List EventView)
  | .array items => items.mapM event?
  | _ => none

def numbered? (member : String × Json) : Option (String × StepResult) :=
  (result? member.2).map fun r => (member.1, r)

def steps? : Json → Option (List (String × StepResult))
  | .object members => members.mapM numbered?
  | _ => none

def error? : Json → Option (Option String)
  | .null => some none
  | .string message => some (some message)
  | _ => none

def run? (value : Json) : Option RunView := do
  let trace ← value.field? "trace" >>= trace?
  let steps ← value.field? "steps" >>= steps?
  let error ← value.field? "error" >>= error?
  return ⟨trace, steps, error⟩

end Json

theorem eventViewed (e : Event) : e.toJson.event? = some e.view := by
  obtain ⟨kind, message, workflow, step, depth⟩ := e
  cases workflow <;> cases step <;> rfl

theorem entryViewed (entry : Int × StepResult) :
    Json.numbered? (toString entry.1, entry.2.toJson) = some (toString entry.1, entry.2) := rfl

/- Items that are read back one by one are read back together. -/
theorem mapReadBack {α β γ : Type} {write : α → β} {read : β → Option γ} {view : α → γ}
    (each : ∀ x, read (write x) = some (view x)) (xs : List α) :
    (xs.map write).mapM read = some (xs.map view) := by
  induction xs with
  | nil => rfl
  | cons x rest ih =>
    rw [List.map_cons, List.mapM_cons, each, ih]
    rfl

/- On an executor that has told nothing before, a document gives back all that it is to tell. -/
theorem documentViewed (x : Execution) (fresh : x.executor.events = x.events) :
    x.document.run? = some x.view := by
  have trace : Json.trace? (.array (x.events.map Event.toJson)) = some (x.events.map Event.view) :=
    mapReadBack eventViewed x.events
  have steps : Json.steps? x.executor.tables.resultsJson =
      some (x.executor.tables.results.entries.map fun e => (toString e.1, e.2)) :=
    mapReadBack entryViewed x.executor.tables.results.entries
  have error : Json.error? (x.failure.elim .null fun f => .string f.message) =
      some (x.failure.map Failure.message) := by
    cases x.failure <;> rfl
  change (do
    let trace ← Json.trace? (.array (x.executor.events.map Event.toJson))
    let steps ← Json.steps? x.executor.tables.resultsJson
    let error ← Json.error? (x.failure.elim .null fun f => .string f.message)
    some (RunView.mk trace steps error)) = _
  rw [fresh, trace, steps, error]
  rfl

/-! Nothing in the document of a run is out of reach of the reader. -/

theorem eventLegible {e : Event} (short : ∀ id ∈ e.step, Short id) : e.toJson.Legible := by
  obtain ⟨kind, message, workflow, step, depth⟩ := e
  refine .object (fun member inside => ?_) ?_
  · rcases List.mem_append.mp inside with front | place
    · rcases List.mem_append.mp front with always | within
      · rcases List.mem_pair.mp always with rfl | rfl <;> exact .string _
      · obtain ⟨w, _, rfl⟩ := Option.map_eq_some_iff.mp (Option.mem_toList.mp within)
        exact .string w
    · obtain ⟨id, at_, rfl⟩ := Option.map_eq_some_iff.mp (Option.mem_toList.mp place)
      exact .integer (short id at_)
  · cases workflow <;> cases step <;> simp

theorem resultLegible {r : StepResult} (short : Short r.status) : r.toJson.Legible := by
  refine .object (fun member inside => ?_) (by simp)
  simp only [List.mem_cons, List.not_mem_nil, or_false] at inside
  rcases inside with rfl | rfl | rfl | rfl
  · exact .bool _
  · exact .string _
  · exact .integer short
  · exact .string _

/- The numbers of a table are distinct, and so are their texts. -/
theorem resultsLegible {t : Tables} (short : ∀ entry ∈ t.results.entries, Short entry.2.status) :
    t.resultsJson.Legible := by
  refine .object (fun member inside => ?_) ?_
  · obtain ⟨entry, listed, rfl⟩ := List.mem_map.mp inside
    exact resultLegible (short entry listed)
  · have names : (t.results.entries.map fun e => (toString e.1, e.2.toJson)).map Prod.fst =
        (t.results.entries.map Prod.fst).map Int.repr := by
      rw [List.map_map, List.map_map]
      rfl
    rw [names]
    exact t.results.distinct.map fun a b same => Int.repr_injective same

section
variable {registry : Registry} {p : Program}

/- Every number that is told of is the number of a step. -/
theorem Program.toldNumbers (short : ∀ found ∈ p.walk, Short found.2.id) :
    ∀ e ∈ p.told registry .empty, ∀ id ∈ e.step, Short id := by
  intro e told id at_
  rcases p.toldCases told with ⟨d, value, rfl⟩ | ⟨w, listed, rfl | ⟨level, s, t, levelled, inside⟩⟩
  · cases at_
  · cases at_
  · rw [(visitTold inside).2.2.1] at at_
    cases at_
    have walked : s ∈ Step.walkAll w.steps := by
      rw [← Step.levelsAllWalk 1]
      exact List.mem_map_of_mem levelled
    exact short (w, s) (List.mem_flatMap.mpr ⟨w, listed, List.mem_map_of_mem walked⟩)

theorem Answer.short {name : String} {r : StepResult} (h : Answer registry name r) : Short r.status := by
  cases h with
  | success _ status =>
    rw [status]
    unfold Short
    decide
  | unknown =>
    change Short StepResult.unknownStatus
    unfold Short
    decide

theorem documentLegible (succeeds : registry.Succeeds) (short : ∀ found ∈ p.walk, Short found.2.id) :
    ((Executor.fresh registry).execute p).document.Legible := by
  have trace : ∀ e ∈ ((Executor.fresh registry).execute p).events, e.toJson.Legible := by
    intro e told
    exact eventLegible (Program.toldNumbers short e (Executor.freshTells registry p ▸ told))
  have steps : ∀ entry ∈ (p.run registry .empty).tables.results.entries, Short entry.2.status := by
    intro entry inside
    obtain ⟨name, _, _, _, _, answer⟩ := (Program.runAnswers succeeds).1 entry.1 entry.2 (Table.getEntry inside)
    exact answer.short
  refine .object (fun member inside => ?_) (by simp)
  simp only [List.mem_cons, List.not_mem_nil, or_false] at inside
  rcases inside with rfl | rfl | rfl
  · refine .array fun item among => ?_
    obtain ⟨e, told, rfl⟩ := List.mem_map.mp among
    exact trace e told
  · exact resultsLegible steps
  · cases ((Executor.fresh registry).execute p).failure with
    | none => exact .null
    | some f => exact .string f.message

/- The document, laid out on lines, is read back as it is. -/
theorem documentRead (succeeds : registry.Succeeds) (short : ∀ found ∈ p.walk, Short found.2.id) :
    Json.read (((Executor.fresh registry).execute p).document.document ++ "\n") =
      .ok ((Executor.fresh registry).execute p).document := by
  have legible := documentLegible succeeds short
  have line : Json.Blank ['\n'] := by
    intro c inside
    rw [List.mem_singleton.mp inside]
    rfl
  have back := Json.readWritten legible (some 0) line
  rw [String.ofList_append] at back
  exact back

end

/-! A trace in front of a document. -/

/- A text that begins with one of these letters is no value. -/
theorem Json.readLetter {c : Char} (letter : c = 'V' ∨ c = 'E') (rest : List Char) :
    ∃ fault, Json.read (String.ofList (c :: rest)) = .error fault := by
  have stops : ∃ stop, Json.Reading.whole (c :: rest) = .error stop := by
    rcases letter with rfl | rfl <;> exact ⟨_, rfl⟩
  obtain ⟨stop, same⟩ := stops
  rw [Json.read, String.toList_ofList, same]
  exact ⟨_, rfl⟩

/- The letters that the lines of a declaration and of a workflow begin with. -/
theorem boundSpelled (d : Declaration) (value : String) :
    ∃ rest, (boundEvent d value).line.toList = 'V' :: rest := by
  simp [boundEvent, Event.line, String.toList_append, toString]

theorem workflowSpelled (w : Workflow) : ∃ rest, (workflowEvent w).line.toList = 'E' :: rest := by
  simp [workflowEvent, Event.line, String.toList_append, toString]

theorem Program.toldBegins {registry : Registry} {p : Program} {e : Event} {rest : List Event}
    (told : p.told registry .empty = e :: rest) :
    (∃ d value, e = boundEvent d value) ∨ ∃ w, e = workflowEvent w := by
  unfold Program.told at told
  cases bound : bindings .empty p.declarations with
  | cons made others =>
    rw [bound] at told
    cases told
    exact .inl ⟨_, _, rfl⟩
  | nil =>
    rw [bound] at told
    cases entered : p.entered registry .empty with
    | nil =>
      rw [entered] at told
      cases told
    | cons found others =>
      rw [entered] at told
      cases told
      exact .inr ⟨_, rfl⟩

/- Whatever stands behind the trace of a run, the whole is no value, unless the trace is empty. -/
theorem traceUnread {registry : Registry} {p : Program}
    (told : ((Executor.fresh registry).execute p).events ≠ []) (behind : String) :
    ∃ fault, Json.read (eventLines ((Executor.fresh registry).execute p).events ++ behind) = .error fault := by
  obtain ⟨e, others, events⟩ := List.exists_cons_of_ne_nil told
  have whole : p.told registry .empty = e :: others := (Executor.freshTells registry p).symm.trans events
  have front : ∃ c rest, (c = 'V' ∨ c = 'E') ∧ e.line.toList = c :: rest := by
    rcases Program.toldBegins whole with ⟨d, value, rfl⟩ | ⟨w, rfl⟩
    · obtain ⟨rest, spelled⟩ := boundSpelled d value
      exact ⟨_, rest, .inl rfl, spelled⟩
    · obtain ⟨rest, spelled⟩ := workflowSpelled w
      exact ⟨_, rest, .inr rfl, spelled⟩
  obtain ⟨c, rest, letter, spelled⟩ := front
  have text : (eventLines (e :: others) ++ behind).toList =
      c :: (rest ++ '\n' :: (eventLines others ++ behind).toList) := by
    simp [eventLines, String.toList_append, spelled]
  rw [events, ← String.ofList_toList (s := eventLines (e :: others) ++ behind), text]
  exact Json.readLetter letter _

end Stepwise
