import Stepwise.Simulation

/-! Registries that are made and edited in turn. A registry holds the place of its table, so that two of
them could hold one table; what is written goes to the table at the place. -/
namespace Stepwise

/-- Registries are numbered as they come about. A mapping that one is made of counts as a registry too,
since it is a table that others hold; the one that is made is a copy of it. -/
inductive RegistryAction where
  | new (given : List (String × Handler))
  | simulated (settings : SimulationSettings)
  | register (registry : Nat) (name : String) (handler : Handler)
  | unregister (registry : Nat) (name : String)
  | copy (registry : Nat)
  | without (registry : Nat) (names : List String)
  | dispatch (registry : Nat) (name : String) (arguments : List String)

inductive RegistryAnswer where
  | made (registry : Nat)
  | registered (journal : List JournalEntry)
  | unregistered (present : Bool)
  | dispatched (reply : Option Reply)
  | refused (fault : SettingsFault)
  | absent

/-- The tables, and for each registry the place of its table among them. -/
structure Shelf where
  tables : List Registry
  places : List Nat

namespace Shelf

def empty : Shelf := ⟨[], []⟩

def table? (s : Shelf) (registry : Nat) : Option Registry :=
  s.places[registry]?.bind fun place => s.tables[place]?

def add (s : Shelf) (table : Registry) : Shelf := ⟨s.tables ++ [table], s.places ++ [s.tables.length]⟩

def edit (s : Shelf) (registry : Nat) (change : Registry → Registry) : Shelf :=
  match s.places[registry]? with
  | some place => { s with tables := s.tables.modify place change }
  | none => s

def unregister (s : Shelf) (registry : Nat) (name : String) : Shelf := s.edit registry (·.erase name)

def made (s : Shelf) (table : Registry) : Shelf × RegistryAnswer := (s.add table, .made s.places.length)

def act (s : Shelf) : RegistryAction → Shelf × RegistryAnswer
  | .new given => s.made (.ofList given)
  | .simulated settings =>
      match settings.registry with
      | .ok table => s.made table
      | .error fault => (s, .refused fault)
  | .register registry name handler =>
      match s.table? registry with
      | some table =>
          (s.edit registry (·.put name handler), .registered (table.replacement name))
      | none => (s, .absent)
  | .unregister registry name =>
      match s.table? registry with
      | some table => (s.unregister registry name, .unregistered (table.contains name))
      | none => (s, .absent)
  | .copy registry =>
      match s.table? registry with
      | some table => s.made table
      | none => (s, .absent)
  | .without registry names =>
      match s.table? registry with
      | some table =>
          (names.foldl (fun s' name => s'.unregister s.places.length name) (s.add table),
            .made s.places.length)
      | none => (s, .absent)
  | .dispatch registry name arguments =>
      match s.table? registry with
      | some table => (s, .dispatched (table.dispatch? name arguments))
      | none => (s, .absent)

def actAll (s : Shelf) (actions : List RegistryAction) : Shelf :=
  actions.foldl (fun s action => (s.act action).1) s

end Shelf
end Stepwise
