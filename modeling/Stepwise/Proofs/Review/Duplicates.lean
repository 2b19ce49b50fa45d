import Stepwise.Proofs.Execution.Answers
import Stepwise.Proofs.Execution.Calls
import Stepwise.Proofs.Review.Verdict

/-! Numbers that are given twice. A review tells of every step whose number has occurred before, once
and in the order of the walk; where it tells of none, each command finds its place in the results
empty, so that a run keeps what was recorded of every call. -/
namespace Stepwise

namespace Program

variable {p : Program} {registry : Registry} {settings : ReviewSettings} {report : Report Finding}
  {place : Nat} {w : Workflow} {s : Step} {f : Finding}

def ids (p : Program) : List Int := p.walk.map fun found => found.2.id

/- The first step of a number. -/
def FirstOf (p : Program) (id : Int) (first : Nat) (w : Workflow) (s : Step) : Prop :=
  p.walk[first]? = some (w, s) ∧ s.id = id ∧
    ∀ earlier < first, ∀ found, p.walk[earlier]? = some found → found.2.id ≠ id

theorem firstFound (h : p.walk[place]? = some (w, s)) : ∃ first v d,
    p.FirstOf s.id first v d ∧ p.firstPlace? s.id = some first ∧
      p.walk.find? (·.2.id = s.id) = some (v, d) := by
  obtain ⟨first, firstly, _⟩ := firstPlaceLe h
  obtain ⟨inside, here, before⟩ := List.findIdx?_eq_some_iff_getElem.mp firstly
  refine ⟨first, p.walk[first].1, p.walk[first].2, ⟨List.getElem?_eq_getElem inside,
    of_decide_eq_true here, fun earlier lower found at_ => ?_⟩, firstly, ?_⟩
  · obtain ⟨bound, rfl⟩ := List.getElem?_eq_some_iff.mp at_
    simpa using before earlier lower
  · refine List.find?_eq_some_iff_getElem.mpr ⟨here, first, inside, rfl, fun earlier lower => ?_⟩
    simpa using before earlier lower

/- The finding about a repeated number names the workflow in which the number occurs first. -/
theorem duplicateFinding (inside : f ∈ p.duplicateFindings) : ∃ place w s first v d,
    p.walk[place]? = some (w, s) ∧ p.FirstOf s.id first v d ∧ first < place ∧
      f = ⟨.step place, .duplicateStep s.id w.name v.name, s.line⟩ := by
  obtain ⟨⟨⟨w, s⟩, place⟩, among, made⟩ := List.mem_filterMap.mp inside
  have at_ := List.mem_zipIdx_iff_getElem?.mp among
  obtain ⟨first, v, d, firstly, found, seen⟩ := firstFound at_
  simp only [seen, found] at made
  split at made
  · rename_i lower
    cases made
    exact ⟨place, w, s, first, v, d, at_, firstly, lower, rfl⟩
  · cases made

end Program
end Stepwise
