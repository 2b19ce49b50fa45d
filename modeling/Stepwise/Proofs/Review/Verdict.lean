import Mathlib.Data.List.Permutation
import Stepwise.Proofs.Execution.Course
import Stepwise.Proofs.Review.Findings

/-! A review against the runs of the program. Without errors in the review no run misses a variable,
and a result is missed only where it was skipped or where its step is a conditional. The other way
round, a run that completes leaves alarms only on steps that it passed over. -/
namespace Stepwise

/- All that a report holds, whether its warnings count as errors or not. -/
def Report.all {α : Type} (r : Report α) : List α := r.errors ++ r.warnings

def Step.isConditional : Step → Bool
  | .ifOnly .. | .ifElse .. => true
  | _ => false

namespace Program

variable {p : Program} {registry : Registry} {t u : Tables} {place : Nat} {s : Step}

theorem firstPlaceAt {id : Int} (h : p.firstPlace? id = some place) :
    ∃ w s, p.walk[place]? = some (w, s) ∧ s.id = id := by
  obtain ⟨inside, found, _⟩ := List.findIdx?_eq_some_iff_getElem.mp h
  exact ⟨p.walk[place].1, p.walk[place].2, List.getElem?_eq_getElem inside, of_decide_eq_true found⟩

theorem firstPlaceLe {w : Workflow} (h : p.walk[place]? = some (w, s)) :
    ∃ first, p.firstPlace? s.id = some first ∧ first ≤ place := by
  obtain ⟨inside, at_⟩ := List.getElem?_eq_some_iff.mp h
  cases found : p.firstPlace? s.id with
  | none =>
    have nowhere := List.findIdx?_eq_none_iff.mp found (w, s) (at_ ▸ List.getElem_mem inside)
    simp at nowhere
  | some first =>
    refine ⟨first, rfl, ?_⟩
    by_contra behind
    obtain ⟨_, _, before⟩ := List.findIdx?_eq_some_iff_getElem.mp found
    have missed := before place (by omega)
    rw [at_] at missed
    simp at missed

theorem visitPlace {v : Visit} (h : (p.visits registry t)[place]? = some v) :
    ∃ w, p.walk[place]? = some (w, v.step) := by
  have seen : ((p.visits registry t).map Visit.step)[place]? = some v.step := by
    rw [List.getElem?_map, h]; rfl
  obtain ⟨inside, _⟩ := List.getElem?_eq_some_iff.mp seen
  obtain ⟨rest, whole⟩ := (visitsAlong registry t p).start
  have within : (((p.visits registry t).map Visit.step) ++ rest)[place]? = some v.step :=
    (List.getElem?_append_left inside).trans seen
  rw [whole, List.getElem?_map] at within
  obtain ⟨⟨w, s⟩, at_, rfl⟩ := Option.map_eq_some_iff.mp within
  exact ⟨w, at_⟩

/- The names and the results that an entered step finds, in a run from empty tables. -/
theorem entryTables (h : (p.visits registry .empty)[place]? = some (.entered s u)) :
    (∀ name, name ∈ u.environment.keys ↔ name ∈ p.declared) ∧
    ∀ key, key ∈ u.results.keys ↔
      key ∈ ((p.visits registry .empty).take place).flatMap Visit.writes := by
  cases done : (runDeclarations .empty p.declarations).failure with
  | some f => rw [(runStopped done).2.2] at h; cases h
  | none =>
    have bound := (declarationsDone done).1
    have journey := runJourney registry done
    rw [entryCut h] at journey
    have before := journey.cut.1
    constructor
    · intro name
      rw [before.environment, bound.keys]
      exact or_iff_right (by simp [Tables.empty, Table.keysEmpty])
    · intro key
      rw [before.keys, bound.results]
      exact or_iff_right (by simp [Tables.empty, Table.keysEmpty])

theorem writtenBefore {vs : List Visit} {key : Int} :
    key ∈ (vs.take place).flatMap Visit.writes ↔
      ∃ j s t, j < place ∧ vs[j]? = some (.entered s t) ∧ key ∈ s.writes := by
  rw [List.mem_flatMap]
  constructor
  · intro given
    obtain ⟨v, taken, wrote⟩ := given
    obtain ⟨j, bound, rfl⟩ := List.mem_take_iff_getElem.mp taken
    cases h : vs[j] with
    | passed s => rw [h] at wrote; cases wrote
    | entered s t =>
      rw [h] at wrote
      exact ⟨j, s, t, by omega, by rw [List.getElem?_eq_getElem (by omega), h], wrote⟩
  · intro given
    obtain ⟨j, s, t, earlier, entry, wrote⟩ := given
    obtain ⟨inside, at_⟩ := List.getElem?_eq_some_iff.mp entry
    refine ⟨.entered s t, ?_, wrote⟩
    exact List.mem_take_iff_getElem.mpr ⟨j, by omega, at_⟩

/- A result that an entered step finds was recorded at an earlier place. -/
theorem foundEarlier (h : (p.visits registry .empty)[place]? = some (.entered s u)) {key : Int}
    (found : key ∈ u.results.keys) : ∃ first, p.firstPlace? key = some first ∧ first < place := by
  rw [(entryTables h).2, writtenBefore] at found
  obtain ⟨j, writer, at_, earlier, entry, wrote⟩ := found
  obtain ⟨w, walked⟩ := visitPlace entry
  obtain ⟨first, firstly, le⟩ := firstPlaceLe walked
  have same : writer.id = key := by
    cases writer with
    | command id name arguments line contentLine => exact (List.mem_singleton.mp wrote).symm
    | _ => cases wrote
  exact ⟨first, same ▸ firstly, by omega⟩

/- In a run that completes, an entered step has read all that it refers to. -/
theorem entryResolved (completed : (p.run registry .empty).failure = none)
    (h : (p.visits registry .empty)[place]? = some (.entered s u)) :
    ∀ e ∈ s.expressions, e.Resolved u := by
  have journey := runJourney registry (declarationsDoneOfRun completed)
  rw [entryCut h, completed] at journey
  exact Step.ownResolved journey.cut.2.done

theorem plainReview {settings : ReviewSettings} (plain : settings.warningsAsErrors.isSet = false) :
    p.reviewUnder? settings registry = p.review? registry.names := by
  unfold reviewUnder?
  simp only [plain, Bool.false_eq_true, if_false]
  exact Option.map_id'

theorem reviewed {commands : List String} {report : Report Finding}
    (h : p.review? commands = some report) :
    (∀ found ∈ p.walk, found.2.isAbsent = false) ∧
    report.errors = (p.findings commands).filter (fun f => f.cause.isError) ∧
    report.warnings = (p.findings commands).filter (fun f => !f.cause.isError) := by
  unfold review? at h
  split at h
  · cases h
  · rename_i complete
    cases h
    refine ⟨?_, rfl, rfl⟩
    intro found inside
    by_contra absent
    exact complete (List.any_eq_true.mpr ⟨found, inside, by simpa using absent⟩)

/- Whatever the settings, a report holds the errors among the findings and behind them the others. -/
theorem reviewedAll {settings : ReviewSettings} {report : Report Finding}
    (h : p.reviewUnder? settings registry = some report) :
    report.all = (p.findings registry.names).filter (fun f => f.cause.isError) ++
      (p.findings registry.names).filter (fun f => !f.cause.isError) := by
  obtain ⟨found, accepted, made⟩ := Option.map_eq_some_iff.mp h
  obtain ⟨_, errors, warnings⟩ := reviewed accepted
  rw [← errors, ← warnings, ← made]
  split
  · exact List.append_nil _
  · rfl

theorem reviewedMem {settings : ReviewSettings} {report : Report Finding} {f : Finding}
    (h : p.reviewUnder? settings registry = some report) :
    f ∈ report.all ↔ f ∈ p.findings registry.names := by
  rw [reviewedAll h, List.mem_append, List.mem_filter, List.mem_filter, ← and_or_left]
  exact and_iff_left (by cases f.cause.isError <;> simp)

theorem futureWarning {c : FindingCause} (h : c.isFuture = true) : c.isError = false := by
  cases c <;> first | rfl | cases h

theorem quietReview {commands : List String} {report : Report Finding}
    (h : p.review? commands = some report) (clean : report.errors = []) :
    ∀ f ∈ p.findings commands, f.cause.isError = false := by
  intro f inside
  by_contra error
  have listed : f ∈ report.errors := by
    rw [(reviewed h).2.1]
    exact List.mem_filter.mpr ⟨inside, by simpa using error⟩
  rw [clean] at listed
  cases listed

theorem backwardReview {commands : List String} {report : Report Finding}
    (h : p.review? commands = some report) (past : ∀ f ∈ report.warnings, f.cause.isFuture = false) :
    ∀ f ∈ p.findings commands, f.cause.isFuture = false := by
  intro f inside
  by_contra future
  have future : f.cause.isFuture = true := by simpa using future
  have listed : f ∈ report.warnings := by
    rw [(reviewed h).2.2]
    exact List.mem_filter.mpr ⟨inside, by rw [futureWarning future]; rfl⟩
  rw [past f listed] at future
  cases future

/- Declarations that are in order fail for none of the two reasons a review is about. -/
theorem clearDeclarations {x : EvalError}
    (clear : ∀ index d, p.declarations[index]? = some d → p.DeclarationClear index d)
    (h : (runDeclarations .empty p.declarations).failure = some (.evaluation x)) :
    (∀ name, x ≠ .undefinedVariable name) ∧ ∀ key, x ≠ .stepNotFound key := by
  obtain ⟨pre, d, post, y, split, cause, bound, error⟩ := declarationsStopped h
  cases cause
  have at_ : p.declarations[pre.length]? = some d := by rw [split]; simp
  obtain ⟨names, steps⟩ := clear pre.length d at_
  constructor
  · rintro name rfl
    obtain ⟨m, mentioned, rfl, unbound⟩ := Expr.evalUndefined error
    apply unbound
    have before := names m mentioned
    simp only [namesBefore, split, List.take_left] at before
    exact (bound.keys _).mpr (.inr before)
  · rintro key rfl
    obtain ⟨r, referred, _⟩ := Expr.evalNotFound error
    rw [steps] at referred
    cases referred

/- A run that gets past the declarations and then fails in an evaluation does so in an expression of
the step it entered last. -/
theorem stoppedEntry {x : EvalError} (done : (runDeclarations .empty p.declarations).failure = none)
    (h : (p.run registry .empty).failure = some (.evaluation x)) :
    ∃ place s u, (p.visits registry .empty)[place]? = some (.entered s u) ∧
      (p.visits registry .empty).length = place + 1 ∧
      ∃ e ∈ s.expressions, e.eval u = .error x := by
  have journey := runJourney registry done
  rw [h] at journey
  obtain ⟨a, s, visited, failed⟩ := journey.last
  refine ⟨a.length, s, _, ?_, ?_, Step.ownUnreadable failed⟩
  · rw [visited]; simp
  · rw [visited]; simp

/- A result that an entered step misses, though the first step of that number lies behind it. -/
theorem missedBehind (whole : ∀ found ∈ p.walk, found.2.isAbsent = false)
    (entry : (p.visits registry .empty)[place]? = some (.entered s u)) {key : Int} {first : Nat}
    (missed : key ∉ u.results.keys) (firstly : p.firstPlace? key = some first)
    (behind : first < place) :
    ∃ w d, p.walk[first]? = some (w, d) ∧
      (d.isConditional = true ∨ (p.visits registry .empty)[first]? = some (.passed d)) := by
  obtain ⟨w, d, walked, same⟩ := firstPlaceAt firstly
  obtain ⟨inside, _⟩ := List.getElem?_eq_some_iff.mp entry
  have seen : (p.visits registry .empty)[first]? = some (p.visits registry .empty)[first] :=
    List.getElem?_eq_getElem (by omega)
  obtain ⟨w', walked'⟩ := visitPlace seen
  rw [walked, Option.some.injEq, Prod.mk.injEq] at walked'
  refine ⟨w, d, walked, ?_⟩
  cases h : (p.visits registry .empty)[first] with
  | passed d' =>
    rw [h] at seen walked'
    obtain rfl : d = d' := walked'.2
    exact .inr seen
  | entered d' v =>
    rw [h] at seen walked'
    obtain rfl : d = d' := walked'.2
    left
    cases d with
    | command id name arguments line contentLine =>
      have wrote : key ∈ (Step.command id name arguments line contentLine).writes :=
        List.mem_singleton.mpr same.symm
      exact absurd ((entryTables entry).2 key |>.mpr
        (writtenBefore.mpr ⟨first, _, v, behind, seen, wrote⟩)) missed
    | ifOnly id condition body line contentLine => rfl
    | ifElse id condition body other line contentLine => rfl
    | absent id line =>
      have none_ := whole _ (List.mem_of_getElem? walked)
      cases none_

/- Without errors in the review, whatever a run fails on is no variable. Where no reference points
ahead in the walk, a result that a run misses belongs to a step behind the failing one, which is a
conditional or was passed over. -/
theorem cleanReviewBound (p : Program) (registry : Registry) (settings : ReviewSettings)
    (report : Report Finding) (plain : settings.warningsAsErrors.isSet = false)
    (accepted : p.reviewUnder? settings registry = some report) (clean : report.errors = []) :
    (∀ name, ((Executor.fresh registry).execute p).failure ≠
      some (.evaluation (.undefinedVariable name))) ∧
    (∀ key, (runDeclarations .empty p.declarations).failure ≠
      some (.evaluation (.stepNotFound key))) ∧
    ((∀ f ∈ report.warnings, f.cause.isFuture = false) →
      ∀ key, ((Executor.fresh registry).execute p).failure =
          some (.evaluation (.stepNotFound key)) →
        ∃ place s u, (p.visits registry .empty)[place]? = some (.entered s u) ∧
          (p.visits registry .empty).length = place + 1 ∧
          (∃ e ∈ s.expressions, e.eval u = .error (.stepNotFound key)) ∧
          ∃ first w d, p.firstPlace? key = some first ∧ first < place ∧
            p.walk[first]? = some (w, d) ∧
            (d.isConditional = true ∨
              (p.visits registry .empty)[first]? = some (.passed d))) := by
  rw [plainReview plain] at accepted
  have whole := (reviewed accepted).1
  have quiet := quietReview accepted clean
  have declarations : ∀ index d, p.declarations[index]? = some d → p.DeclarationClear index d :=
    fun _ _ at_ => declarationClear quiet at_
  refine ⟨?_, ?_, ?_⟩
  · intro name failed
    change (p.run registry .empty).failure = _ at failed
    cases done : (runDeclarations .empty p.declarations).failure with
    | some f =>
      rw [(runStopped done).1] at failed
      cases failed
      exact (clearDeclarations declarations done).1 name rfl
    | none =>
      obtain ⟨place, s, u, entry, _, e, owned, error⟩ := stoppedEntry done failed
      obtain ⟨m, mentioned, rfl, unbound⟩ := Expr.evalUndefined error
      obtain ⟨w, walked⟩ := visitPlace entry
      have names := (expressionClear quiet walked owned).1 m mentioned
      exact unbound (((entryTables entry).1 _).mpr names)
  · intro key failed
    exact (clearDeclarations declarations failed).2 key rfl
  · intro past key failed
    change (p.run registry .empty).failure = _ at failed
    have backward := backwardReview accepted past
    cases done : (runDeclarations .empty p.declarations).failure with
    | some f =>
      rw [(runStopped done).1] at failed
      cases failed
      exact absurd rfl ((clearDeclarations declarations done).2 key)
    | none =>
      obtain ⟨place, s, u, entry, last, e, owned, error⟩ := stoppedEntry done failed
      obtain ⟨r, referred, rfl, missed⟩ := Expr.evalNotFound error
      obtain ⟨w, walked⟩ := visitPlace entry
      obtain ⟨first, firstly, behind⟩ := expressionBackward quiet backward walked owned r referred
      obtain ⟨w', d, found, reason⟩ := missedBehind whole entry missed firstly behind
      exact ⟨place, s, u, entry, last, ⟨e, owned, error⟩, first, w', d, firstly, behind, found,
        reason⟩

/- One step is passed over, and the step behind it asks for its result. -/
def skippedResult : Program :=
  ⟨[⟨"let", "ready", .text "false" none, none⟩],
    [⟨"w", [.ifOnly 1 (.name "ready" none)
        [.command 2 "print" [.text "yes" none] none none] none none,
      .command 3 "print" [.result 2 none none] none none], none⟩], none⟩

def skippedReport : Report Finding :=
  ⟨[], [⟨.step 1, .unknownCommand "print" 2 "w", none⟩,
    ⟨.step 2, .unknownCommand "print" 3 "w", none⟩]⟩

theorem skippedResultMissed :
    skippedResult.reviewUnder? .default Table.empty = some skippedReport ∧
    ((Executor.fresh Table.empty).execute skippedResult).failure =
      some (.evaluation (.stepNotFound 2)) ∧
    ∃ place s u, (skippedResult.visits Table.empty .empty)[place]? = some (.entered s u) ∧
      (skippedResult.visits Table.empty .empty).length = place + 1 ∧
      (∃ e ∈ s.expressions, e.eval u = .error (.stepNotFound 2)) ∧
      ∃ first w d, skippedResult.firstPlace? 2 = some first ∧ first < place ∧
        skippedResult.walk[first]? = some (w, d) ∧
        (d.isConditional = true ∨
          (skippedResult.visits Table.empty .empty)[first]? = some (.passed d)) := by
  have accepted : skippedResult.reviewUnder? .default Table.empty = some skippedReport := by cbv
  have failed : ((Executor.fresh Table.empty).execute skippedResult).failure =
      some (.evaluation (.stepNotFound 2)) := by rfl
  have bound := cleanReviewBound skippedResult Table.empty .default skippedReport rfl accepted rfl
  exact ⟨accepted, failed, bound.2.2 (by decide) 2 failed⟩

theorem visitSeen (completed : (p.run registry .empty).failure = none) {w : Workflow}
    (walked : p.walk[place]? = some (w, s)) :
    (∃ u, (p.visits registry .empty)[place]? = some (.entered s u)) ∨
    (p.visits registry .empty)[place]? = some (.passed s) := by
  have same := (visitsAlong registry .empty p).whole completed
  have seen : ((p.visits registry .empty).map Visit.step)[place]? = some s := by
    rw [same, List.getElem?_map, walked]; rfl
  rw [List.getElem?_map] at seen
  obtain ⟨v, at_, rfl⟩ := Option.map_eq_some_iff.mp seen
  cases v with
  | entered s u => exact .inl ⟨u, at_⟩
  | passed s => exact .inr at_

/- No alarm on what a completed run has evaluated. -/
theorem alarmSkipped {commands : List String} {f : Finding}
    (completed : (p.run registry .empty).failure = none) (inside : f ∈ p.findings commands)
    (alarm : f.cause.isAlarm = true) :
    ∃ place s, f.subject = .step place ∧ (p.visits registry .empty)[place]? = some (.passed s) := by
  rcases alarmTraced inside alarm with
    ⟨d, index, at_, fault⟩ | ⟨w, s, place, walked, on, e, owned, fault⟩
  · have split : p.declarations = p.declarations.take index ++ d :: p.declarations.drop (index + 1) :=
      entryCut at_
    obtain ⟨u, bound, read⟩ := (declarationsDone (declarationsDoneOfRun completed)).2 _ _ _ split
    rcases fault with ⟨m, mentioned, unbound⟩ | ⟨r, referred⟩
    · have found := (bound.keys m.name).mp (read.names m mentioned)
      exact absurd (found.resolve_left (by simp [Tables.empty, Table.keysEmpty])) unbound
    · have found := read.steps r referred
      rw [bound.results] at found
      cases found
  · rcases visitSeen completed walked with ⟨u, entry⟩ | skipped
    · have read := entryResolved completed entry e owned
      rcases fault with ⟨m, mentioned, missing⟩ | ⟨r, referred, ahead⟩
      · exact absurd (((entryTables entry).1 m.name).mp (read.names m mentioned)) missing
      · obtain ⟨first, firstly, earlier⟩ := foundEarlier entry (read.steps r referred)
        have late := ahead first firstly
        omega
    · exact ⟨place, s, on, skipped⟩

theorem straightVisits {steps : List Step} (straight : ∀ s ∈ Step.walkAll steps, s.isConditional = false)
    (t : Tables) : ∀ v ∈ Step.visitsAll registry t steps, ∀ s, v ≠ .passed s := by
  induction steps generalizing t with
  | nil => intro v inside; cases inside
  | cons first rest ih =>
    have later : ∀ s ∈ Step.walkAll rest, s.isConditional = false := fun s inside =>
      straight s (List.mem_append_right _ inside)
    have alone : ∃ u, first.visits registry t = [.entered first u] := by
      cases first with
      | command id name arguments line contentLine => exact ⟨t, rfl⟩
      | absent id line => exact ⟨t, rfl⟩
      | ifOnly id condition body line contentLine =>
        have branching := straight _ (List.mem_append_left _ List.mem_cons_self)
        cases branching
      | ifElse id condition body other line contentLine =>
        have branching := straight _ (List.mem_append_left _ List.mem_cons_self)
        cases branching
    obtain ⟨u, alone⟩ := alone
    simp only [Step.visitsAll, alone, Step.onward]
    intro v inside s same
    rcases List.mem_append.mp inside with here | behind
    · rw [List.mem_singleton.mp here] at same
      cases same
    · split at behind
      · cases behind
      · exact ih later _ v behind s same

/- A program without conditionals passes nothing over. -/
theorem straightRun (straight : ∀ found ∈ p.walk, found.2.isConditional = false)
    (completed : (p.run registry .empty).failure = none) :
    ∀ v ∈ p.visits registry .empty, ∀ s, v ≠ .passed s := by
  have steps : ∀ s ∈ Step.walkAll p.steps, s.isConditional = false := by
    intro s inside
    rw [← walkSteps] at inside
    obtain ⟨found, walked, rfl⟩ := List.mem_map.mp inside
    exact straight found walked
  simp only [visits, Step.onward, declarationsDoneOfRun completed]
  exact straightVisits steps _

theorem acceptedWhole (commands : List String)
    (whole : ∀ found ∈ p.walk, found.2.isAbsent = false) :
    ∃ report, p.review? commands = some report := by
  unfold review?
  split
  · rename_i missing
    obtain ⟨found, inside, absent⟩ := List.any_eq_true.mp missing
    rw [whole found inside] at absent
    cases absent
  · exact ⟨_, rfl⟩

/- A run that completes leaves no error on a declaration, and errors and warnings of later steps only
on steps that it passed over. Without conditionals it leaves none. -/
theorem completedRunAlarms (p : Program) (registry : Registry) (settings : ReviewSettings)
    (whole : ∀ found ∈ p.walk, found.2.isAbsent = false)
    (plain : settings.warningsAsErrors.isSet = false)
    (completed : ((Executor.fresh registry).execute p).failure = none) :
    ∃ report, p.reviewUnder? settings registry = some report ∧
      (∀ f ∈ report.errors, ∀ index, f.subject ≠ .declaration index) ∧
      (∀ f ∈ report.errors ++ report.warnings.filter (fun f => f.cause.isFuture),
        ∃ place s, f.subject = .step place ∧
          (p.visits registry .empty)[place]? = some (.passed s)) ∧
      ((∀ found ∈ p.walk, found.2.isConditional = false) →
        report.errors = [] ∧ ∀ f ∈ report.warnings, f.cause.isFuture = false) := by
  change (p.run registry .empty).failure = none at completed
  obtain ⟨report, accepted⟩ := acceptedWhole registry.names whole
  obtain ⟨_, errors, warnings⟩ := reviewed accepted
  have skipped : ∀ f ∈ report.errors ++ report.warnings.filter (fun f => f.cause.isFuture),
      ∃ place s, f.subject = .step place ∧
        (p.visits registry .empty)[place]? = some (.passed s) := by
    intro f inside
    rw [errors, warnings] at inside
    rcases List.mem_append.mp inside with error | future
    · obtain ⟨found, isError⟩ := List.mem_filter.mp error
      exact alarmSkipped completed found (by simp only [FindingCause.isAlarm, isError, Bool.true_or])
    · obtain ⟨warning, isFuture⟩ := List.mem_filter.mp future
      exact alarmSkipped completed (List.mem_filter.mp warning).1
        (by simp only [FindingCause.isAlarm, isFuture, Bool.or_true])
  refine ⟨report, (plainReview plain).trans accepted, ?_, skipped, ?_⟩
  · intro f inside index on
    obtain ⟨place, s, other, _⟩ := skipped f (List.mem_append_left _ inside)
    rw [on] at other
    cases other
  · intro straight
    have nothing : report.errors ++ report.warnings.filter (fun f => f.cause.isFuture) = [] := by
      rw [List.eq_nil_iff_forall_not_mem]
      intro f inside
      obtain ⟨place, s, _, passed⟩ := skipped f inside
      exact straightRun straight completed _ (List.mem_of_getElem? passed) s rfl
    obtain ⟨noErrors, noFuture⟩ := List.append_eq_nil_iff.mp nothing
    refine ⟨noErrors, fun f inside => ?_⟩
    simpa using List.filter_eq_nil_iff.mp noFuture f inside

/- A step that asks for a result there will never be, in a block that is passed over. -/
def hopelessStep : Program :=
  ⟨[⟨"let", "ready", .text "false" none, none⟩],
    [⟨"w", [.ifOnly 1 (.name "ready" none)
        [.command 2 "print" [.result 9 none none] none none] none none,
      .command 3 "print" [.name "ready" none] none none], none⟩], none⟩

theorem hopelessStepSkipped :
    (∀ found ∈ hopelessStep.walk, found.2.isAbsent = false) ∧
    ((Executor.fresh Table.empty).execute hopelessStep).failure = none ∧
    ∃ report, hopelessStep.reviewUnder? .default Table.empty = some report ∧
      (∀ f ∈ report.errors, ∀ index, f.subject ≠ .declaration index) ∧
      (∀ f ∈ report.errors ++ report.warnings.filter (fun f => f.cause.isFuture),
        ∃ place s, f.subject = .step place ∧
          (hopelessStep.visits Table.empty .empty)[place]? = some (.passed s)) ∧
      ((∀ found ∈ hopelessStep.walk, found.2.isConditional = false) →
        report.errors = [] ∧ ∀ f ∈ report.warnings, f.cause.isFuture = false) := by
  have whole : ∀ found ∈ hopelessStep.walk, found.2.isAbsent = false := by decide
  have completed : ((Executor.fresh Table.empty).execute hopelessStep).failure = none := by rfl
  exact ⟨whole, completed, completedRunAlarms hopelessStep Table.empty .default whole rfl completed⟩

end Program
end Stepwise
