import Stepwise.Json.Reading

/-! Values in which no object has two members of one name, as all are that a text is read to. Such a value
is alike to itself. -/
namespace Stepwise.Json
open Reading

/- A value in which no object has two members of one name. -/
inductive Distinct : Json → Prop where
  | null : Distinct .null
  | bool (value : Bool) : Distinct (.bool value)
  | integer (value : Int) : Distinct (.integer value)
  | number (value : Binary64) : Distinct (.number value)
  | string (value : String) : Distinct (.string value)
  | array {items : List Json} (each : ∀ x ∈ items, Distinct x) : Distinct (.array items)
  | object {members : List (String × Json)} (each : ∀ member ∈ members, Distinct member.2)
      (apart : (members.map Prod.fst).Nodup) : Distinct (.object members)

theorem lookupMember {members : List (String × Json)} (apart : (members.map Prod.fst).Nodup)
    {member : String × Json} (inside : member ∈ members) :
    members.lookup member.1 = some member.2 := by
  induction members with
  | nil => cases inside
  | cons first rest ih =>
    obtain ⟨fresh, apart⟩ := List.nodup_cons.mp apart
    rcases List.mem_cons.mp inside with rfl | later
    · exact List.lookup_cons_self
    · have other : member.1 ≠ first.1 := fun same => fresh (same ▸ List.mem_map_of_mem later)
      have differs : (member.1 == first.1) = false := by simpa using other
      rw [List.lookup_cons, differs]
      exact ih apart later

theorem allAlikeSelf {items : List Json} (each : ∀ x ∈ items, x.alike x = true) :
    allAlike items items = true := by
  induction items with
  | nil => rfl
  | cons x rest ih =>
    obtain ⟨first, others⟩ := List.forall_mem_cons.mp each
    rw [allAlike, first, ih others]
    rfl

theorem membersAlikeFound {members others : List (String × Json)}
    (each : ∀ member ∈ members, ∃ other, others.lookup member.1 = some other ∧
      member.2.alike other = true) : membersAlike members others = true := by
  induction members with
  | nil => rfl
  | cons member rest ih =>
    obtain ⟨⟨other, found, same⟩, each⟩ := List.forall_mem_cons.mp each
    rw [membersAlike, found]
    simp [same, ih each]

/- A value is alike to itself; this holds of numbers that are none as well. -/
theorem Distinct.alike {value : Json} (h : value.Distinct) : value.alike value = true := by
  induction h with
  | null => rfl
  | bool value | integer value =>
    rw [Json.alike, beq_self_eq_true, Bool.and_true]
    · rfl
    all_goals nofun
  | number value => simp [Json.alike]
  | string value => simp [Json.alike]
  | array each ih => exact allAlikeSelf ih
  | object each apart ih =>
    rw [Json.alike, beq_self_eq_true, Bool.true_and]
    exact membersAlikeFound fun member inside =>
      ⟨member.2, lookupMember apart inside, ih member inside⟩

theorem Distinct.memberD {members : List (String × Json)} (h : (Json.object members).Distinct)
    (name : String) {fallback : Json} (other : fallback.Distinct) :
    (memberD members name fallback).Distinct := by
  cases h with
  | object each apart =>
    unfold Json.memberD
    cases found : members.lookup name with
    | none => exact other
    | some value =>
      obtain ⟨_, _, same, _⟩ := List.lookup_eq_some_iff.mp found
      exact each (name, value) (by simp [same])

/-! Reading. -/

theorem Distinct.empty : (Json.object []).Distinct := .object (by simp) List.nodup_nil

theorem putMemberNames (name : String) (value : Json) (members : List (String × Json)) (other : String) :
    other ∈ (putMember name value members).map Prod.fst ↔ other = name ∨ other ∈ members.map Prod.fst := by
  induction members with
  | nil => simp [putMember]
  | cons member rest ih =>
    rw [putMember]
    split
    · rename_i same
      simp [same]
    · rw [List.map_cons, List.mem_cons, ih, List.map_cons, List.mem_cons, or_left_comm]

/- A member is put in the place of one of its name, or behind all others. -/
theorem Distinct.put {members : List (String × Json)} {value : Json} (h : (Json.object members).Distinct)
    (name : String) (other : value.Distinct) : (Json.object (putMember name value members)).Distinct := by
  cases h with
  | object each apart =>
    induction members with
    | nil => exact .object (by simpa [putMember] using other) (by simp [putMember])
    | cons member rest ih =>
      obtain ⟨first, others⟩ := List.forall_mem_cons.mp each
      obtain ⟨fresh, apart⟩ := List.nodup_cons.mp apart
      rw [putMember]
      split
      · rename_i same
        exact .object (List.forall_mem_cons.mpr ⟨other, others⟩)
          (List.nodup_cons.mpr ⟨same ▸ fresh, apart⟩)
      · rename_i differs
        cases ih others apart with
        | object each' apart' =>
          refine .object (List.forall_mem_cons.mpr ⟨first, each'⟩) (List.nodup_cons.mpr ⟨?_, apart'⟩)
          rw [putMemberNames]
          exact not_or.mpr ⟨differs, fresh⟩

namespace Reading

/- What is read, if anything is, has no doubled names. -/
def Yields (result : Except Stop (Json × List Char)) : Prop :=
  ∀ found rest, result = .ok (found, rest) → found.Distinct

theorem Yields.ok {found : Json} (h : found.Distinct) (rest : List Char) : Yields (.ok (found, rest)) := by
  rintro _ _ ⟨⟩
  exact h

theorem Yields.error (stop : Stop) : Yields (.error stop) := by
  rintro _ _ ⟨⟩

theorem wordsDistinct : ∀ w ∈ words, w.2.Distinct := by
  simp [words, Distinct.null, Distinct.bool, Distinct.number]

theorem numberYields (s : List Char) : Yields (number s) := by
  unfold number
  extract_lets
  split
  · exact .error _
  · split
    · split
      · exact .error _
      · exact .ok (.integer _) _
    · exact .ok (.number _) _

/-! One round more, if those before it yield values without doubled names. -/

variable {fuel : Nat}

theorem valueYields (ofItems : ∀ s, Yields (items fuel [] s)) (ofMembers : ∀ s, Yields (members fuel [] s))
    (s : List Char) : Yields (value (fuel + 1) s) := by
  cases s with
  | nil => exact .error _
  | cons c rest =>
    rw [value]
    split
    · cases stringEnd (c :: rest) [] rest with
      | error stop => exact .error stop
      | ok read => exact .ok (.string _) _
    · split
      · split
        · exact .ok .empty _
        · exact ofMembers _
      · split
        · split
          · exact .ok (.array (by simp)) _
          · exact ofItems _
        · split
          · rename_i found known
            obtain ⟨w, among, rfl⟩ := Option.map_eq_some_iff.mp known
            exact .ok (wordsDistinct w (List.mem_of_find?_eq_some among)) _
          · exact numberYields _

theorem itemsYield {done : List Json} (ofValue : ∀ s, Yields (value fuel s))
    (ofItems : ∀ done s, (∀ x ∈ done, x.Distinct) → Yields (items fuel done s))
    (before : ∀ x ∈ done, x.Distinct) (s : List Char) : Yields (items (fuel + 1) done s) := by
  rw [items]
  cases read : value fuel s with
  | error stop => exact .error stop
  | ok found =>
    have all : ∀ x ∈ found.1 :: done, x.Distinct :=
      List.forall_mem_cons.mpr ⟨ofValue s _ _ read, before⟩
    simp only [bind, Except.bind]
    split
    · exact .error _
    · split
      · exact .ok (.array fun x inside => all x (List.mem_reverse.mp inside)) _
      · split
        · exact ofItems _ _ all
        · exact .error _

theorem membersYield {done : List (String × Json)} (ofValue : ∀ s, Yields (value fuel s))
    (ofMembers : ∀ done s, (Json.object done).Distinct → Yields (members fuel done s))
    (before : (Json.object done).Distinct) (s : List Char) : Yields (members (fuel + 1) done s) := by
  rw [members]
  split
  · cases stringEnd s [] (s.drop 1) with
    | error stop => exact .error stop
    | ok name =>
      simp only [bind, Except.bind]
      split
      · cases read : value fuel (skip ((skip name.2).drop 1)) with
        | error stop => exact .error stop
        | ok found =>
          have all := before.put name.1 (ofValue _ _ _ read)
          dsimp only
          split
          · exact .error _
          · split
            · exact .ok all _
            · split
              · exact ofMembers _ _ all
              · exact .error _
      · exact .error _
  · exact .error _

theorem readersYield (fuel : Nat) : (∀ s, Yields (value fuel s)) ∧
    (∀ done s, (∀ x ∈ done, x.Distinct) → Yields (items fuel done s)) ∧
    ∀ done s, (Json.object done).Distinct → Yields (members fuel done s) := by
  induction fuel with
  | zero => exact ⟨fun _ => .error _, fun _ _ _ => .error _, fun _ _ _ => .error _⟩
  | succ fuel ih =>
    obtain ⟨ofValue, ofItems, ofMembers⟩ := ih
    refine ⟨valueYields (fun s => ofItems [] s (by simp)) fun s => ofMembers [] s .empty, ?_, ?_⟩
    · exact fun done s before => itemsYield ofValue ofItems before s
    · exact fun done s before => membersYield ofValue ofMembers before s

end Reading

/- No member name occurs twice in what is read. -/
theorem readDistinct {s : String} {value : Json} (h : read s = .ok value) : value.Distinct := by
  unfold read whole at h
  split at h
  · cases h
  · cases found : Reading.value (2 * s.toList.length + 2) (skip s.toList) with
    | error stop =>
      rw [found] at h
      cases h
    | ok found_ =>
      rw [found] at h
      simp only [bind, Except.bind] at h
      split at h
      · cases h
        exact (readersYield _).1 _ _ _ found
      · cases h

end Stepwise.Json
