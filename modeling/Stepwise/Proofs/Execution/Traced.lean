import Stepwise.Proofs.Execution.Written
import Stepwise.Proofs.Trace

/-! The calls of a run and its trace. From a program that is read from a text, the trace tells every
command that is called, and with which arguments, in the order of the calls. -/
namespace Stepwise

/-! What may name a command. -/

theorem keywordIdentifier (w : Keyword) : IsIdentifier w.spelling := by
  cases w <;> exact ⟨_, _, rfl, rfl, List.all_eq_true.mp rfl⟩

theorem nameIdentifier {t : Token} (written : t.Written)
    (names : t.kind = .identifier ∨ ∃ w : Keyword, t.kind = .keyword w) : IsIdentifier t.lexeme := by
  have lexeme := written.lexeme
  generalize spelled : t.lexeme.toList = s at lexeme
  generalize t.kind = kind at names lexeme
  cases lexeme with
  | identifier first more letter wordly => exact ⟨first, more, spelled, letter, wordly⟩
  | keyword word => exact String.toList_inj.mp spelled ▸ keywordIdentifier word
  | number | string | mark => rcases names with same | ⟨w, same⟩ <;> cases same

theorem commandNamed {source : String} {ts : List Token} {p : Program}
    (tokenized : tokenize source = .ok ts) (read : parse ts = .ok p) {id : Int} {name : String}
    {arguments : List Expr} {line contentLine : Option Nat}
    (walked : .command id name arguments line contentLine ∈ p.walk.map Prod.snd) :
    IsIdentifier name := by
  obtain ⟨_, d, yields, rfl⟩ := parseDerived (tokenizeSpelled tokenized) read
  obtain ⟨found, inside, same⟩ := List.mem_map.mp walked
  obtain ⟨step, tree, part⟩ := d.stepWritten found inside
  rw [same] at tree
  cases step with
  | command header content =>
    cases tree
    have among : content.name.val ∈ beforeEnd ts :=
      yields ▸ part.subset (List.mem_append_right _ List.mem_cons_self)
    refine nameIdentifier (writtenBeforeEnd tokenized _ among) ?_
    exact content.name.2.imp_right fun ⟨w, kind, _⟩ => ⟨w, kind⟩
  | ifOnly | ifElse => cases tree

/-! The calls of a run. -/

def Call.told (c : Call) : String × List String := (c.name, c.values)

theorem doneCalls (registry : Registry) (v : Visit) :
    (v.done registry).filterMap Occurrence.call? = v.call?.toList.map Call.told := by
  cases v with
  | passed s => rfl
  | entered s t =>
    change (s.own registry t).occurrences.filterMap Occurrence.call? = _
    cases called : (Visit.entered s t).call? with
    | some c =>
      have behind : (c.behind registry).filterMap Occurrence.call? = [] := by
        refine List.filterMap_eq_nil_iff.mpr fun o inside => ?_
        rcases c.behindQuiet registry o inside with ⟨line, rfl⟩ | rfl <;> rfl
      have call : (Occurrence.dispatched c.name c.values).call? = some c.told := rfl
      rw [ownOccurs registry called, List.filterMap_cons_some call, behind]
      rfl
    | none =>
      refine List.filterMap_eq_nil_iff.mpr fun o inside => ?_
      obtain ⟨taken, hasElse, rfl⟩ := ownSilence called o inside
      rfl

/- The calls that occur in a run are those of its visits. -/
theorem Program.runCalls (registry : Registry) (t : Tables) (p : Program) :
    (p.run registry t).occurrences.filterMap Occurrence.call? =
      (calls (p.visits registry t)).map Call.told := by
  have kept (os : List Occurrence) :
      (os.filter Occurrence.isDone).filterMap Occurrence.call? = os.filterMap Occurrence.call? := by
    rw [List.filterMap_filter]
    refine List.filterMap_congr fun o _ => ?_
    cases o <;> rfl
  have bound (made : List (Declaration × String)) :
      (made.map bindingDone).filterMap Occurrence.call? = [] := by
    rw [List.filterMap_map]
    exact List.filterMap_eq_nil_iff.mpr fun _ _ => rfl
  have visited (vs : List Visit) : (vs.flatMap (Visit.done registry)).filterMap Occurrence.call? =
      (calls vs).map Call.told := by
    induction vs with
    | nil => rfl
    | cons v rest ih =>
      rw [List.flatMap_cons, List.filterMap_append, ih, doneCalls, callsCons, List.map_append]
  rw [← kept, p.does, List.filterMap_append, bound, List.nil_append, visited]

/- Whatever the tables and the commands are, and wherever the run stops: the trace of a program that is
read from a text tells its calls, each with its name and with the values of its arguments. -/
theorem executeCallsRead {source : String} {ts : List Token} {p : Program}
    (tokenized : tokenize source = .ok ts) (read : parse ts = .ok p) (x : Executor) :
    ((x.execute p).events.filter (·.kind = .dispatch)).map (fun e => callRead? e.line) =
      (calls (p.visits x.registry x.tables)).map fun c => some (c.name, c.values) := by
  have named : ∀ name values, .dispatched name values ∈ (p.run x.registry x.tables).occurrences →
      IsIdentifier name := by
    intro name values occurs
    have called : (name, values) ∈ (calls (p.visits x.registry x.tables)).map Call.told :=
      p.runCalls x.registry x.tables ▸ List.mem_filterMap.mpr ⟨_, occurs, rfl⟩
    obtain ⟨c, among, same⟩ := List.mem_map.mp called
    obtain ⟨v, visited, call⟩ := List.mem_filterMap.mp among
    cases same
    cases v with
    | passed s => cases call
    | entered s t =>
      obtain ⟨arguments, line, contentLine, rfl, _⟩ := Stepwise.called call
      exact commandNamed tokenized read (Program.visitsWalked visited)
  change ((x.position.events (p.run x.registry x.tables).occurrences).filter _).map _ = _
  rw [callsRead named, p.runCalls, List.map_map]
  rfl

end Stepwise
