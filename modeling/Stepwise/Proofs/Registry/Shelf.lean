import Mathlib.Data.String.Basic
import Stepwise.Proofs.Execution.Answers
import Stepwise.Registry.Shelf

/-! Registries are finite maps that have nothing to do with each other. Each holds a table of its own,
also one that was copied from another, so that it is what its own edits have made of it; under a name
stands what the last edit of this name left there. -/
namespace Stepwise

/- What is written to a registry. -/
inductive Edit where
  | put (name : String) (handler : Handler)
  | erase (name : String)

namespace Edit

def name : Edit → String
  | .put name _ | .erase name => name

def handler? : Edit → Option Handler
  | .put _ handler => some handler
  | .erase _ => none

def apply (table : Registry) : Edit → Registry
  | .put name handler => table.put name handler
  | .erase name => table.erase name

end Edit

/- What comes of a number of edits. -/
def replayed (edits : List Edit) : Registry := edits.foldl Edit.apply .empty

/- What the last edit of a name leaves under it. -/
def held? (edits : List Edit) (name : String) : Option Handler :=
  (edits.reverse.find? (·.name = name)).bind Edit.handler?

/- The simulated commands are written one after the other, and those that are disabled taken out. -/
def SimulationSettings.edits (settings : SimulationSettings) : List Edit :=
  (Simulated.all.map fun s => .put s.name (s.handler settings)) ++
    settings.disabled.filterMap fun
      | .string name => some (.erase name)
      | _ => none

namespace RegistryAction

/- The registry that is written to. -/
def edited? : RegistryAction → Option Nat
  | .register registry .. | .unregister registry _ => some registry
  | _ => none

/- The edits of each registry, with those of an action. A registry that comes of another one takes over
the edits that were made of it up to then. -/
def extend (histories : List (List Edit)) : RegistryAction → List (List Edit)
  | .new given => histories ++ [given.map fun entry => .put entry.1 entry.2]
  | .simulated settings =>
      match settings.registry with
      | .ok _ => histories ++ [settings.edits]
      | .error _ => histories
  | .register registry name handler => histories.modify registry (· ++ [.put name handler])
  | .unregister registry name => histories.modify registry (· ++ [.erase name])
  | .copy registry => histories ++ histories[registry]?.toList
  | .without registry names =>
      histories ++ (histories[registry]?.map (· ++ names.map .erase)).toList
  | .dispatch .. => histories

end RegistryAction

def editHistories (actions : List RegistryAction) : List (List Edit) :=
  actions.foldl RegistryAction.extend []

section
variable {edits : List Edit} {name : String}

theorem replayedAppend (edits more : List Edit) :
    replayed (edits ++ more) = more.foldl Edit.apply (replayed edits) :=
  List.foldl_append

theorem heldAppend (edits : List Edit) (edit : Edit) (name : String) :
    held? (edits ++ [edit]) name = if edit.name = name then edit.handler? else held? edits name := by
  rw [held?, List.reverse_append, List.reverse_singleton, List.singleton_append, List.find?_cons]
  by_cases same : edit.name = name
  · simp [same]
  · simp [same, held?]

theorem Edit.getApply (table : Registry) (edit : Edit) (name : String) :
    (edit.apply table).get? name = if edit.name = name then edit.handler? else table.get? name := by
  cases edit with
  | put other handler =>
    refine (Table.getPut table other name handler).trans ?_
    simp [Edit.name, handler?, eq_comm]
  | erase other =>
    refine (Table.getErase table other name).trans ?_
    simp [Edit.name, handler?, eq_comm]

/- What is found in a registry was left there by the last edit of the name. -/
theorem getReplayed (edits : List Edit) (name : String) :
    (replayed edits).get? name = held? edits name := by
  induction edits using List.reverseRecOn with
  | nil => rfl
  | append_singleton edits edit ih =>
    rw [replayedAppend, heldAppend, ← ih]
    exact edit.getApply _ name

end

/-! What is found in a registry. -/

/- A registry as the finite map that edits come to. -/
structure Registry.Maps (registry : Registry) (edits : List Edit) : Prop where
  replayed : registry = replayed edits
  held : ∀ name, registry.get? name = held? edits name
  contained : ∀ name, registry.contains name = (held? edits name).isSome
  dispatched : ∀ name arguments,
    registry.dispatch? name arguments = (held? edits name).map fun handler => handler arguments
  increasing : registry.names.Pairwise (· < ·)
  counted : registry.names.length = registry.size
  named : ∀ name, name ∈ registry.names ↔ registry.contains name = true

namespace Registry

variable (registry : Registry)

/- Names are distinct, so that those in order increase. -/
theorem namesIncrease : registry.names.Pairwise (· < ·) := by
  have ordered : registry.names.Pairwise fun a b => decide (a ≤ b) = true := by
    refine List.pairwise_mergeSort (fun a b c first second => ?_) (fun a b => ?_) _
    · exact decide_eq_true (String.le_trans (of_decide_eq_true first) (of_decide_eq_true second))
    · simpa using String.le_total a b
  have distinct : registry.names.Nodup := (List.mergeSort_perm _ _).nodup_iff.mpr registry.distinct
  refine (ordered.and distinct).imp fun {a b} both => ?_
  exact lt_of_le_of_ne (of_decide_eq_true both.1) both.2

theorem namesCount : registry.names.length = registry.size := by
  rw [names, List.length_mergeSort, Table.keys, List.length_map, Table.size]

theorem namesContained (name : String) : name ∈ registry.names ↔ registry.contains name = true := by
  rw [names, List.mem_mergeSort, Table.contains, Option.isSome_iff_exists, Table.getSome]

theorem mapsReplayed (edits : List Edit) : (Stepwise.replayed edits).Maps edits where
  replayed := rfl
  held := getReplayed edits
  contained name := by rw [Table.contains, getReplayed]
  dispatched name arguments := by rw [dispatch?, getReplayed]
  increasing := namesIncrease _
  counted := namesCount _
  named := namesContained _

theorem putAllReplayed {entries : List (String × Handler)} (table : Registry) :
    entries.foldl (fun table entry => table.put entry.1 entry.2) table =
      (entries.map fun entry => Edit.put entry.1 entry.2).foldl Edit.apply table := by
  rw [List.foldl_map]
  rfl

theorem withoutReplayed (table : Registry) (names : List String) :
    table.without names = (names.map Edit.erase).foldl Edit.apply table := by
  rw [List.foldl_map]
  rfl

/- What is disabled without a fault is what the names among it take out. -/
theorem disableReplayed {values : List Json} {table rest : Registry}
    (h : disable values table = .ok rest) : rest =
      (values.filterMap fun
        | .string name => some (Edit.erase name)
        | _ => none).foldl Edit.apply table := by
  induction values generalizing table with
  | nil =>
    cases h
    rfl
  | cons value values ih =>
    cases value with
    | string name => exact ih h
    | array | object =>
      simp only [disable] at h
      split at h
      · exact ih h
      · cases h
    | _ => exact ih h

end Registry

theorem SimulationSettings.registryReplayed {settings : SimulationSettings} {table : Registry}
    (made : settings.registry = .ok table) : table = replayed settings.edits := by
  rw [Registry.disableReplayed made, edits, replayedAppend]
  rfl

/-! What is done on a shelf. -/

namespace Shelf

/- No two registries hold one table. -/
structure Apart (s : Shelf) : Prop where
  distinct : s.places.Nodup
  within : ∀ place ∈ s.places, place < s.tables.length

variable {s : Shelf}

theorem Apart.add (h : s.Apart) (table : Registry) : (s.add table).Apart where
  distinct := Table.nodupSnoc h.distinct fun known => Nat.lt_irrefl _ (h.within _ known)
  within place inside := by
    have longer : (s.add table).tables.length = s.tables.length + 1 := List.length_append
    rcases List.mem_append.mp inside with before | new
    · have place_ := h.within place before
      omega
    · have place_ := List.mem_singleton.mp new
      omega

/- A table that is added comes to lie where no other registry looks. -/
theorem Apart.tableAdd (h : s.Apart) (table : Registry) (registry : Nat) :
    (s.add table).table? registry =
      if registry = s.places.length then some table else s.table? registry := by
  unfold Shelf.add table?
  dsimp only
  rcases Nat.lt_trichotomy registry s.places.length with before | same | behind
  · have inside := h.within _ (List.getElem_mem before)
    simp [List.getElem?_append_left before, before, Nat.ne_of_lt before,
      List.getElem?_append_left inside]
  · simp [same]
  · have beyond : (s.places ++ [s.tables.length]).length ≤ registry := by
      rw [List.length_append]
      exact behind
    rw [List.getElem?_eq_none beyond, List.getElem?_eq_none (Nat.le_of_lt behind),
      if_neg (Nat.ne_of_gt behind)]
    rfl

theorem Apart.edit (h : s.Apart) (registry : Nat) (change : Registry → Registry) :
    (s.edit registry change).Apart := by
  unfold Shelf.edit
  split
  · exact ⟨h.distinct, fun place inside => by simpa using h.within place inside⟩
  · exact h

theorem placesEdit (s : Shelf) (registry : Nat) (change : Registry → Registry) :
    (s.edit registry change).places = s.places := by
  unfold edit
  split <;> rfl

/- An edit of one registry is seen in no other. -/
theorem Apart.tableEdit (h : s.Apart) (registry other : Nat) (change : Registry → Registry) :
    (s.edit registry change).table? other =
      if other = registry then (s.table? registry).map change else s.table? other := by
  unfold Shelf.edit
  cases held : s.places[registry]? with
  | none =>
    have nothing : s.table? registry = none := by rw [table?, held]; rfl
    by_cases same : other = registry
    · rw [if_pos same, same, nothing]
      rfl
    · rw [if_neg same]
  | some place =>
    unfold table?
    dsimp only
    cases looked : s.places[other]? with
    | none =>
      have apart : other ≠ registry := fun same => by
        rw [same, held] at looked
        cases looked
      rw [if_neg apart]
      rfl
    | some place' =>
      rw [held, Option.bind_some, Option.bind_some, List.getElem?_modify]
      have there : registry < s.places.length := (List.getElem?_eq_some_iff.mp held).1
      have one : place = place' ↔ other = registry := by
        have inj := List.getElem?_inj (j := other) there h.distinct
        rw [held, looked, Option.some.injEq] at inj
        exact inj.trans eq_comm
      by_cases same : other = registry
      · rw [if_pos same, ← one.mpr same]
        simp
      · simp [mt one.mp same, same]

def unregisterAll (s : Shelf) (registry : Nat) (names : List String) : Shelf :=
  names.foldl (fun s name => s.unregister registry name) s

theorem Apart.unregisterAll (h : s.Apart) (registry : Nat) (names : List String) :
    (s.unregisterAll registry names).Apart ∧
      (s.unregisterAll registry names).places = s.places ∧ ∀ other,
        (s.unregisterAll registry names).table? other =
          if other = registry then (s.table? registry).map (·.without names) else s.table? other := by
  induction names generalizing s with
  | nil =>
    refine ⟨h, rfl, fun other => ?_⟩
    by_cases same : other = registry
    · rw [if_pos same, same]
      exact Option.map_id'.symm
    · rw [if_neg same]
      rfl
  | cons name names ih =>
    obtain ⟨apart, places, tables⟩ := ih (h.edit registry (·.erase name))
    refine ⟨apart, places.trans (placesEdit s registry _), fun other => (tables other).trans ?_⟩
    rw [h.tableEdit registry registry, h.tableEdit registry other, if_pos rfl, Option.map_map]
    by_cases same : other = registry
    · rw [if_pos same, if_pos same]
      rfl
    · rw [if_neg same, if_neg same, if_neg same]

/- Every registry is what its own edits have made of it. -/
structure Keeps (s : Shelf) (histories : List (List Edit)) : Prop where
  apart : s.Apart
  counted : s.places.length = histories.length
  tables : ∀ registry, s.table? registry = histories[registry]?.map replayed

variable {histories : List (List Edit)} {registry : Nat} {edits : List Edit}

theorem Keeps.empty : empty.Keeps [] := ⟨⟨List.nodup_nil, nofun⟩, rfl, fun _ => rfl⟩

theorem Keeps.found (h : s.Keeps histories) (made : histories[registry]? = some edits) :
    s.table? registry = some (replayed edits) := by
  rw [h.tables, made]
  rfl

theorem Keeps.added (h : s.Keeps histories) {table : Registry} (made : table = replayed edits) :
    (s.add table).Keeps (histories ++ [edits]) where
  apart := h.apart.add table
  counted := by
    rw [List.length_append, ← h.counted]
    exact List.length_append
  tables registry := by
    rw [h.apart.tableAdd, h.tables, h.counted, made]
    by_cases same : registry = histories.length
    · simp [same]
    · rcases Nat.lt_or_gt_of_ne same with before | behind
      · rw [if_neg same, List.getElem?_append_left before]
      · have beyond : (histories ++ [edits]).length ≤ registry := by
          rw [List.length_append]
          exact behind
        rw [if_neg same, List.getElem?_eq_none beyond, List.getElem?_eq_none (Nat.le_of_lt behind)]

theorem Keeps.edited (h : s.Keeps histories) (registry : Nat) (edit : Edit)
    {change : Registry → Registry} (does : ∀ table, change table = edit.apply table) :
    (s.edit registry change).Keeps (histories.modify registry (· ++ [edit])) where
  apart := h.apart.edit registry change
  counted := by rw [placesEdit, List.length_modify, h.counted]
  tables other := by
    rw [h.apart.tableEdit, h.tables, h.tables, List.getElem?_modify]
    by_cases same : other = registry
    · subst same
      rw [if_pos rfl]
      cases histories[other]? with
      | none => rfl
      | some edits => simp [does, replayedAppend]
    · simp [same, Ne.symm same]

theorem Keeps.trimmed (h : s.Keeps histories) (names : List String) :
    ((s.add (replayed edits)).unregisterAll s.places.length names).Keeps
      (histories ++ [edits ++ names.map .erase]) := by
  have added := h.added (rfl : replayed edits = replayed edits)
  have whole := h.added (rfl : replayed (edits ++ names.map .erase) = _)
  obtain ⟨apart, places, tables⟩ := added.apart.unregisterAll s.places.length names
  refine ⟨apart, ?_, fun other => ?_⟩
  · exact (congrArg List.length places).trans whole.counted
  · rw [tables, ← whole.tables, h.apart.tableAdd, h.apart.tableAdd, h.apart.tableAdd, if_pos rfl,
      replayedAppend, ← Registry.withoutReplayed]
    split <;> rfl

/- A registry that there is not is left as it is. -/
theorem Keeps.missing (h : s.Keeps histories) (none_ : histories[registry]? = none) :
    s.table? registry = none ∧ ∀ change, histories.modify registry change = histories := by
  refine ⟨by rw [h.tables, none_]; rfl, fun change => ?_⟩
  exact List.modify_eq_self (List.getElem?_eq_none_iff.mp none_)

/- Any action leaves every registry to be what its edits have made of it. -/
theorem Keeps.act (h : s.Keeps histories) (action : RegistryAction) :
    (s.act action).1.Keeps (action.extend histories) := by
  cases action with
  | new given => exact h.added (by rw [Table.ofList, Registry.putAllReplayed]; rfl)
  | simulated settings =>
    simp only [Shelf.act, RegistryAction.extend]
    cases made : settings.registry with
    | ok table => exact h.added (SimulationSettings.registryReplayed made)
    | error fault => exact h
  | register registry name handler =>
    simp only [Shelf.act, RegistryAction.extend]
    cases made : histories[registry]? with
    | none =>
      obtain ⟨absent, same⟩ := h.missing made
      rw [absent, same]
      exact h
    | some edits =>
      rw [h.found made]
      exact h.edited registry (.put name handler) fun _ => rfl
  | unregister registry name =>
    simp only [Shelf.act, RegistryAction.extend]
    cases made : histories[registry]? with
    | none =>
      obtain ⟨absent, same⟩ := h.missing made
      rw [absent, same]
      exact h
    | some edits =>
      rw [h.found made]
      exact h.edited registry (.erase name) fun _ => rfl
  | copy registry =>
    simp only [Shelf.act, RegistryAction.extend]
    cases made : histories[registry]? with
    | none =>
      rw [(h.missing made).1]
      simpa using h
    | some edits =>
      rw [h.found made]
      exact h.added rfl
  | without registry names =>
    simp only [Shelf.act, RegistryAction.extend]
    cases made : histories[registry]? with
    | none =>
      rw [(h.missing made).1]
      simpa using h
    | some edits =>
      rw [h.found made]
      exact h.trimmed names
  | dispatch registry name arguments =>
    simp only [Shelf.act, RegistryAction.extend]
    cases s.table? registry <;> exact h

theorem Keeps.actAll (h : s.Keeps histories) (actions : List RegistryAction) :
    (s.actAll actions).Keeps (actions.foldl RegistryAction.extend histories) := by
  induction actions generalizing s histories with
  | nil => exact h
  | cons action rest ih => exact ih (h.act action)

/- The edits of a registry stay what they are under actions that do not write to it. -/
theorem extendKeeps {action : RegistryAction} (made : histories[registry]? = some edits)
    (elsewhere : action.edited? ≠ some registry) :
    (action.extend histories)[registry]? = some edits := by
  have there : registry < histories.length := (List.getElem?_eq_some_iff.mp made).1
  cases action with
  | new | copy | without => exact (List.getElem?_append_left there).trans made
  | simulated settings =>
    simp only [RegistryAction.extend]
    split
    · exact (List.getElem?_append_left there).trans made
    · exact made
  | register other | unregister other =>
    have apart : other ≠ registry := fun same => elsewhere (congrArg some same)
    simp only [RegistryAction.extend, List.getElem?_modify, made]
    simp [apart]
  | dispatch => exact made

theorem extendAllKeeps {actions : List RegistryAction} (made : histories[registry]? = some edits)
    (elsewhere : ∀ action ∈ actions, action.edited? ≠ some registry) :
    (actions.foldl RegistryAction.extend histories)[registry]? = some edits := by
  induction actions generalizing histories with
  | nil => exact made
  | cons action rest ih =>
    obtain ⟨first, others⟩ := List.forall_mem_cons.mp elsewhere
    exact ih (extendKeeps made first) others

/- What is answered over a registry, and what is made of it. -/
structure Answers (s : Shelf) (registry : Nat) (edits : List Edit) : Prop where
  registered : ∀ name handler, (s.act (.register registry name handler)).2 =
    .registered (if (held? edits name).isSome then
      [⟨.debug, .registry, "Replacing handler for command " ++ name⟩] else [])
  unregistered : ∀ name,
    (s.act (.unregister registry name)).2 = .unregistered (held? edits name).isSome
  copied : (s.act (.copy registry)).2 = .made s.places.length ∧
    (s.act (.copy registry)).1.table? s.places.length = s.table? registry
  trimmed : ∀ names, (s.act (.without registry names)).2 = .made s.places.length ∧
    (s.act (.without registry names)).1.table? s.places.length =
      (s.table? registry).map (·.without names)
  dispatched : ∀ name arguments, s.act (.dispatch registry name arguments) =
    (s, .dispatched ((held? edits name).map fun handler => handler arguments))

theorem Keeps.answers (h : s.Keeps histories) (made : histories[registry]? = some edits) :
    s.Answers registry edits := by
  have found := h.found made
  have maps := Registry.mapsReplayed edits
  constructor
  · intro name handler
    simp only [Shelf.act, found, Registry.replacement, maps.contained]
  · intro name
    simp only [Shelf.act, found, maps.contained]
  · have copies : s.act (.copy registry) = s.made (replayed edits) := by
      simp only [Shelf.act, found]
    rw [copies, found]
    exact ⟨rfl, (h.apart.tableAdd _ _).trans (if_pos rfl)⟩
  · intro names
    have trims : s.act (.without registry names) =
        ((s.add (replayed edits)).unregisterAll s.places.length names, .made s.places.length) := by
      simp only [Shelf.act, found, Shelf.unregisterAll]
    rw [trims, found]
    obtain ⟨_, _, tables⟩ := (h.apart.add (replayed edits)).unregisterAll s.places.length names
    refine ⟨rfl, (tables _).trans ?_⟩
    rw [if_pos rfl, h.apart.tableAdd, if_pos rfl]
  · intro name arguments
    simp only [Shelf.act, found, maps.dispatched]

end Shelf

/- After any actions each registry is the finite map that its own edits come to, those that were made of
what it was copied from up to then included, and answers as such; actions that do not write to it leave it
as it is, whatever becomes of the registries that it was copied from or into. -/
theorem registriesApart (actions : List RegistryAction) :
    (Shelf.empty.actAll actions).places.length = (editHistories actions).length ∧
    ∀ registry edits, (editHistories actions)[registry]? = some edits →
      (∃ table, (Shelf.empty.actAll actions).table? registry = some table ∧ table.Maps edits) ∧
      (Shelf.empty.actAll actions).Answers registry edits ∧
      ∀ later, (∀ action ∈ later, action.edited? ≠ some registry) →
        (Shelf.empty.actAll (actions ++ later)).table? registry =
          (Shelf.empty.actAll actions).table? registry := by
  have keeps := Shelf.Keeps.empty.actAll actions
  refine ⟨keeps.counted, fun registry edits made => ⟨?maps, keeps.answers made, ?stays⟩⟩
  case maps => exact ⟨_, keeps.found made, Registry.mapsReplayed edits⟩
  case stays =>
    intro later elsewhere
    have behind := Shelf.Keeps.empty.actAll (actions ++ later)
    rw [List.foldl_append] at behind
    rw [behind.found (Shelf.extendAllKeeps made elsewhere), keeps.found made]

/- A registry and its copy, before other commands come and go in the one that was copied. -/
def copiedActions : List RegistryAction := [.new [("log", Simulated.log.handler .default)], .copy 0]

def laterActions : List RegistryAction :=
  [.register 0 "log" (Simulated.print.handler .default), .without 0 ["fetch", "log"], .unregister 0 "log"]

theorem copyStaysApart :
    (editHistories copiedActions)[1]? = some [.put "log" (Simulated.log.handler .default)] ∧
    (∀ action ∈ laterActions, action.edited? ≠ some 1) ∧ ∃ table,
      (Shelf.empty.actAll copiedActions).table? 1 = some table ∧ table.names = ["log"] ∧
      table.dispatch? "log" ["a"] = some ⟨["Log: a"], .result (.ok "a" "Log executed successfully")⟩ ∧
      (Shelf.empty.actAll (copiedActions ++ laterActions)).table? 1 = some table ∧
      (Shelf.empty.actAll (copiedActions ++ laterActions)).table? 0 = some .empty := by
  have made : (editHistories copiedActions)[1]? = some [.put "log" (Simulated.log.handler .default)] := rfl
  have elsewhere : ∀ action ∈ laterActions, action.edited? ≠ some 1 := by
    simp [laterActions, RegistryAction.edited?]
  obtain ⟨_, each⟩ := registriesApart copiedActions
  obtain ⟨⟨table, held, maps⟩, _, stays⟩ := each 1 _ made
  refine ⟨made, elsewhere, table, held, ?_, ?_, ?_, rfl⟩
  · rw [maps.replayed]
    simp [Registry.names, replayed, Edit.apply, Table.put, Table.keys, Table.putEntry, Table.empty]
  · rw [maps.dispatched]
    rfl
  · rw [stays laterActions elsewhere, held]

end Stepwise
