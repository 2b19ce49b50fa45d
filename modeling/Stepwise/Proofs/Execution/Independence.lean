import Stepwise.Proofs.Execution.Journey

/-! Steps that keep out of each other's way. What a step records is fixed by the variables and by the
results that expressions within it ask for, and it records under the numbers of its commands only; so
two steps of which neither records what the other records or asks for may change places. -/
namespace Stepwise

namespace Step

/- The results that a step asks for by itself. -/
def reads (s : Step) : List Int :=
  s.expressions.flatMap fun e => e.references.map Reference.step

/- The same of a step and all steps within it. -/
def readsWithin (s : Step) : List Int := s.walk.flatMap reads

/- The numbers of all commands of a step and of the steps within it. -/
def writesWithin (s : Step) : List Int := s.walk.flatMap writes

structure Independent (a b : Step) : Prop where
  reads : ∀ id ∈ a.writesWithin, id ∉ b.readsWithin
  writes : ∀ id ∈ a.writesWithin, id ∉ b.writesWithin
  readsBack : ∀ id ∈ b.writesWithin, id ∉ a.readsWithin

end Step

namespace Tables

/- Tables that tell no difference to an expression that asks for these results at most. -/
structure SameFor (ids : List Int) (t u : Tables) : Prop where
  environment : t.environment = u.environment
  results : ∀ id ∈ ids, t.results.get? id = u.results.get? id

theorem SameFor.refl (ids : List Int) (t : Tables) : SameFor ids t t := ⟨rfl, fun _ _ => rfl⟩

theorem SameFor.sameReads {ids : List Int} {t u : Tables} {e : Expr} (h : SameFor ids t u)
    (asked : ∀ r ∈ e.references, r.step ∈ ids) : Expr.SameReads t u e :=
  ⟨fun m _ => by rw [h.environment], fun r inside => h.results r.step (asked r inside)⟩

def recordAll (t : Tables) (made : List (Int × StepResult)) : Tables :=
  made.foldl (fun t entry => t.record entry.1 entry.2) t

theorem recordAllAppend (t : Tables) (a b : List (Int × StepResult)) :
    t.recordAll (a ++ b) = (t.recordAll a).recordAll b := List.foldl_append

theorem recordAllEnvironment (t : Tables) (made : List (Int × StepResult)) :
    (t.recordAll made).environment = t.environment := by
  induction made generalizing t with
  | nil => rfl
  | cons entry rest ih => exact ih (t.record entry.1 entry.2)

/- What is looked up behind some recordings is what they have made of it, whatever stood there, or
what stood there. -/
theorem recordAllGet (made : List (Int × StepResult)) (id : Int) :
    (id ∈ made.map Prod.fst ∧ ∃ r, ∀ t : Tables, (t.recordAll made).results.get? id = some r) ∨
    (id ∉ made.map Prod.fst ∧
      ∀ t : Tables, (t.recordAll made).results.get? id = t.results.get? id) := by
  induction made with
  | nil => exact .inr ⟨List.not_mem_nil, fun _ => rfl⟩
  | cons entry rest ih =>
    have first : ∀ t : Tables, (t.record entry.1 entry.2).results.get? id =
        if id = entry.1 then some entry.2 else t.results.get? id :=
      fun t => Table.getPut t.results entry.1 id entry.2
    rcases ih with ⟨inside, r, found⟩ | ⟨missing, kept⟩
    · exact .inl ⟨List.mem_cons_of_mem _ inside, r, fun t => found _⟩
    · by_cases same : id = entry.1
      · refine .inl ⟨same ▸ List.mem_cons_self, entry.2, fun t => ?_⟩
        exact (kept _).trans ((first t).trans (if_pos same))
      · refine .inr ⟨?_, fun t => (kept _).trans ((first t).trans (if_neg same))⟩
        rw [List.map_cons, List.mem_cons, not_or]
        exact ⟨same, missing⟩

theorem SameFor.recordAll {ids : List Int} {t u : Tables} (h : SameFor ids t u)
    (made : List (Int × StepResult)) : SameFor ids (t.recordAll made) (u.recordAll made) where
  environment := by rw [recordAllEnvironment, recordAllEnvironment, h.environment]
  results id inside := by
    rcases recordAllGet made id with ⟨_, r, found⟩ | ⟨_, kept⟩
    · rw [found, found]
    · rw [kept, kept, h.results id inside]

theorem recordAllApart {ids : List Int} (t : Tables) {made : List (Int × StepResult)}
    (apart : ∀ entry ∈ made, entry.1 ∉ ids) : SameFor ids t (t.recordAll made) where
  environment := (recordAllEnvironment t made).symm
  results id inside := by
    rcases recordAllGet made id with ⟨written, _⟩ | ⟨_, kept⟩
    · obtain ⟨entry, found, rfl⟩ := List.mem_map.mp written
      exact absurd inside (apart entry found)
    · exact (kept t).symm

/- Recordings under different numbers may change places. -/
theorem recordAllSwap (t : Tables) {a b : List (Int × StepResult)}
    (apart : ∀ entry ∈ a, entry.1 ∉ b.map Prod.fst) (id : Int) :
    ((t.recordAll a).recordAll b).results.get? id =
      ((t.recordAll b).recordAll a).results.get? id := by
  rcases recordAllGet a id with ⟨written, r, found⟩ | ⟨_, kept⟩
  · obtain ⟨entry, inside, rfl⟩ := List.mem_map.mp written
    rcases recordAllGet b entry.1 with ⟨again, _⟩ | ⟨_, kept⟩
    · exact absurd again (apart entry inside)
    · rw [kept, found, found]
  · rcases recordAllGet b id with ⟨_, r, found⟩ | ⟨_, still⟩
    · rw [found, kept, found]
    · rw [still, kept, kept, still]

end Tables

open Tables (SameFor)

/- A part of a run that asks for these results at most, records under these numbers at most, and does
the same on tables between which it can tell no difference. -/
def Local (reads writes : List Int) (part : Tables → Run) : Prop :=
  ∀ t u, SameFor reads t u → ∃ made : List (Int × StepResult), (∀ entry ∈ made, entry.1 ∈ writes) ∧
    (part t).tables = t.recordAll made ∧ (part u).tables = u.recordAll made ∧
    (part t).failure = (part u).failure

namespace Local

variable {reads writes : List Int} {part next : Tables → Run}

theorem still (os : List Occurrence) (f : Option Failure) :
    Local reads writes fun t => ⟨os, t, f⟩ :=
  fun _ _ _ => ⟨[], nofun, rfl, rfl, rfl⟩

theorem recorded (os : List Occurrence) {id : Int} (inside : id ∈ writes) (result : StepResult) :
    Local reads writes fun t => ⟨os, t.record id result, none⟩ :=
  fun _ _ _ => ⟨[(id, result)], by simpa using inside, rfl, rfl, rfl⟩

theorem within (h : Local reads writes part) (id : Int) :
    Local reads writes fun t => (part t).within id := h

theorem andThen (h : Local reads writes part) (k : Local reads writes next) :
    Local reads writes fun t => (part t).andThen next := by
  intro t u same
  dsimp only
  obtain ⟨made, inside, there, here, failure⟩ := h t u same
  cases first : (part t).failure with
  | some f =>
    rw [Run.andThenStopped first, Run.andThenStopped (failure.symm.trans first)]
    exact ⟨made, inside, there, here, failure⟩
  | none =>
    rw [Run.andThenDone first, Run.andThenDone (failure.symm.trans first)]
    have later := same.recordAll made
    rw [← there, ← here] at later
    obtain ⟨more, within, there', here', failure'⟩ := k _ _ later
    refine ⟨made ++ more, ?_, ?_, ?_, failure'⟩
    · intro entry found
      exact (List.mem_append.mp found).elim (inside entry) (within entry)
    · rw [Tables.recordAllAppend, ← there, ← there']
    · rw [Tables.recordAllAppend, ← here, ← here']

/- A part that begins with a reading. -/
theorem reading {γ : Type} (read : Tables → γ)
    (steady : ∀ t u, SameFor reads t u → read t = read u)
    (each : ∀ value, ∃ next, Local reads writes next ∧ ∀ t, read t = value → part t = next t) :
    Local reads writes part := by
  intro t u same
  obtain ⟨next, h, goes⟩ := each (read t)
  rw [goes t rfl, goes u (steady t u same).symm]
  exact h t u same

end Local

theorem commandLocal (registry : Registry) {reads writes : List Int} {id : Int} (name : String)
    {arguments : List Expr} (asked : ∀ e ∈ arguments, ∀ r ∈ e.references, r.step ∈ reads)
    (recorded : id ∈ writes) :
    Local reads writes fun t => runCommand registry t id name arguments := by
  refine .reading (fun t => Expr.evalAll t arguments)
    (fun t u same => Expr.evalAllCongr fun e inside => same.sameReads (asked e inside))
    fun value => ?_
  cases value with
  | error x => exact ⟨_, .still [] _, fun t found => by simp only [runCommand, found]; rfl⟩
  | ok values =>
    cases reply : registry.dispatch? name values with
    | none =>
      exact ⟨_, .recorded _ recorded _, fun t found => by simp only [runCommand, found, reply]; rfl⟩
    | some answer =>
      obtain ⟨said, outcome⟩ := answer
      cases outcome with
      | result r =>
        exact ⟨_, .recorded _ recorded r,
          fun t found => by simp only [runCommand, found, reply]; rfl⟩
      | nothing =>
        exact ⟨_, .recorded _ recorded _,
          fun t found => by simp only [runCommand, found, reply]; rfl⟩
      | failed message =>
        exact ⟨_, .still _ _, fun t found => by simp only [runCommand, found, reply]; rfl⟩

theorem conditionalLocal (registry : Registry) {reads writes : List Int} {s : Step}
    {condition : Expr} (owner : s.condition? = some condition)
    (asked : ∀ r ∈ condition.references, r.step ∈ reads)
    (block : ∀ taken, Local reads writes fun t => Step.runAll registry t (s.chosen taken)) :
    Local reads writes fun t => s.run registry t := by
  simp only [Step.runConditional registry _ owner]
  refine .within (.reading (fun t => condition.condition t)
    (fun t u same => Expr.conditionCongr (same.sameReads asked)) fun value => ?_) s.id
  cases value with
  | error x => exact ⟨_, .still [] _, fun t found => by simp only [found]; rfl⟩
  | ok taken =>
    exact ⟨_, .andThen (.still [.branched taken s.hasElse] none) (block taken),
      fun t found => by simp only [found]; rfl⟩

namespace Step

/- A step that asks for these results and records under these numbers at most, by itself. -/
structure Confined (ids keys : List Int) (s : Step) : Prop where
  asks : ∀ id ∈ s.reads, id ∈ ids
  records : ∀ id ∈ s.writes, id ∈ keys

variable {ids keys : List Int}

theorem Confined.asked {s : Step} {e : Expr} (h : s.Confined ids keys) (own : e ∈ s.expressions) :
    ∀ r ∈ e.references, r.step ∈ ids := fun r inside =>
  h.asks r.step (List.mem_flatMap.mpr ⟨e, own, List.mem_map_of_mem inside⟩)

mutual

theorem confinedLocal (registry : Registry) : (s : Step) → (∀ d ∈ s.walk, d.Confined ids keys) →
    Local ids keys fun t => s.run registry t
  | .command id name arguments line contentLine, h => by
      have itself := h _ List.mem_cons_self
      refine (commandLocal registry name (fun e inside => itself.asked inside) ?_).within id
      exact itself.records id (List.mem_singleton_self id)
  | .ifOnly _ condition body _ _, h =>
      conditionalLocal registry rfl
        ((h _ List.mem_cons_self).asked (List.mem_singleton_self condition)) fun
        | true => confinedAllLocal registry body fun d inside => h d (List.mem_cons_of_mem _ inside)
        | false => .still [] none
  | .ifElse _ condition body other _ _, h =>
      conditionalLocal registry rfl
        ((h _ List.mem_cons_self).asked (List.mem_singleton_self condition)) fun
        | true => confinedAllLocal registry body fun d inside =>
            h d (List.mem_cons_of_mem _ (List.mem_append_left _ inside))
        | false => confinedAllLocal registry other fun d inside =>
            h d (List.mem_cons_of_mem _ (List.mem_append_right _ inside))
  | .absent id line, _ => (Local.still [] (some .absentContent)).within id

theorem confinedAllLocal (registry : Registry) : (steps : List Step) →
    (∀ d ∈ walkAll steps, d.Confined ids keys) → Local ids keys fun t => runAll registry t steps
  | [], _ => .still [] none
  | s :: rest, h => .andThen
      (confinedLocal registry s fun d inside => h d (List.mem_append_left _ inside))
      (confinedAllLocal registry rest fun d inside => h d (List.mem_append_right _ inside))

end

theorem runLocal (registry : Registry) (s : Step) :
    Local s.readsWithin s.writesWithin fun t => s.run registry t :=
  confinedLocal registry s fun d inside =>
    ⟨fun _ asked => List.mem_flatMap.mpr ⟨d, inside, asked⟩,
      fun _ recorded => List.mem_flatMap.mpr ⟨d, inside, recorded⟩⟩

theorem pairRun (registry : Registry) (t : Tables) (a b : Step) : runAll registry t [a, b] =
    (a.run registry t).andThen fun t => b.run registry t := by
  simp only [runAll]
  congr 1
  funext t
  exact Run.andThenNothing _

/- Of two independent steps, each does the same before and behind the other. -/
theorem independentRuns (registry : Registry) (t : Tables) {a b : Step} (h : a.Independent b) :
    ∃ first second : List (Int × StepResult),
      (∀ entry ∈ first, entry.1 ∉ second.map Prod.fst) ∧
      (a.run registry t).tables = t.recordAll first ∧
      (b.run registry t).tables = t.recordAll second ∧
      (b.run registry (a.run registry t).tables).tables = (t.recordAll first).recordAll second ∧
      (a.run registry (b.run registry t).tables).tables = (t.recordAll second).recordAll first ∧
      (b.run registry (a.run registry t).tables).failure = (b.run registry t).failure ∧
      (a.run registry (b.run registry t).tables).failure = (a.run registry t).failure := by
  obtain ⟨first, firstWithin, aHere, _, _⟩ := runLocal registry a t t (.refl _ _)
  have seenByB : SameFor b.readsWithin t (t.recordAll first) :=
    Tables.recordAllApart t fun entry inside => h.reads _ (firstWithin entry inside)
  obtain ⟨second, secondWithin, bHere, bBehind, bSame⟩ := runLocal registry b _ _ seenByB
  have seenByA : SameFor a.readsWithin t (t.recordAll second) :=
    Tables.recordAllApart t fun entry inside => h.readsBack _ (secondWithin entry inside)
  obtain ⟨again, againWithin, aAgain, aBehind, aSame⟩ := runLocal registry a _ _ seenByA
  refine ⟨again, second, ?_, aAgain, bHere, ?_, ?_, ?_, ?_⟩
  · intro entry inside written
    obtain ⟨other, found, same⟩ := List.mem_map.mp written
    exact h.writes _ (againWithin entry inside) (same ▸ secondWithin other found)
  · rw [← aAgain, aHere]
    exact bBehind
  · rw [bHere]
    exact aBehind
  · rw [aHere]
    exact bSame.symm
  · rw [bHere]
    exact aSame.symm

theorem independentCommute (registry : Registry) (t : Tables) (a b : Step) (h : a.Independent b) :
    let ab := runAll registry t [a, b]
    let ba := runAll registry t [b, a]
    (ab.failure = none ↔ ba.failure = none) ∧
    (ab.failure = none → ab.tables.environment = ba.tables.environment ∧
      ∀ id, ab.tables.results.get? id = ba.tables.results.get? id) := by
  obtain ⟨first, second, apart, aHere, bHere, ab, ba, bSame, aSame⟩ :=
    independentRuns registry t h
  simp only [pairRun]
  have both : ((a.run registry t).andThen fun t => b.run registry t).failure = none ↔
      ((b.run registry t).andThen fun t => a.run registry t).failure = none := by
    rw [Run.andThenDoneIff, Run.andThenDoneIff, bSame, aSame]
    exact And.comm
  refine ⟨both, fun done => ?_⟩
  have aDone := (Run.andThenDoneIff.mp done).1
  have bDone := (Run.andThenDoneIff.mp (both.mp done)).1
  rw [Run.andThenDone aDone, Run.andThenDone bDone]
  dsimp only
  rw [ab, ba]
  constructor
  · simp only [Tables.recordAllEnvironment]
  · exact Tables.recordAllSwap t apart

/- Both steps ask for a result that was there before them; the second one asks for its own besides. -/
def answered : Tables := Tables.empty.record 9 (.ok "open" "")

def noting : Step := .command 1 "note" [.result 9 (some "status") none] none none

def following : Step :=
  .ifElse 2 (.binary (.result 9 none none) "==" (.text "open" none) none)
    [.command 3 "print" [.result 9 none none] none none,
      .ifOnly 4 (.result 3 (some "success") none) [.command 5 "note" [] none none] none none]
    [.command 3 "note" [] none none] none none

theorem followingCommutes :
    noting.Independent following ∧ (runAll Table.empty answered [noting, following]).failure = none ∧
    (runAll Table.empty answered [following, noting]).failure = none ∧
    ∀ id, (runAll Table.empty answered [noting, following]).tables.results.get? id =
      (runAll Table.empty answered [following, noting]).tables.results.get? id := by
  have independent : noting.Independent following := ⟨by decide, by decide, by decide⟩
  have completed : (runAll Table.empty answered [noting, following]).failure = none := by rfl
  have commute := independentCommute Table.empty answered noting following independent
  exact ⟨independent, completed, commute.1.mp completed, (commute.2 completed).2⟩

end Step
end Stepwise
