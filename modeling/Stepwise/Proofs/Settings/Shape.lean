import Stepwise.Proofs.Execution.Answers
import Stepwise.Settings.Loading

/-! The shape of settings. A value of this shape is read as settings, and the commands that it disables
can be looked up; nothing else is asked of what its members hold. -/
namespace Stepwise

namespace Json

def isObject : Json → Bool
  | .object _ => true
  | _ => false

/- What can be gone through for names: a list that holds no other list or object, or a text or an
object, whose characters or member names are taken. -/
def isNaming : Json → Bool
  | .array items => items.all fun item => !item.isContainer
  | .string _ | .object _ => true
  | _ => false

/- An object whose sections are objects, and which gives the disabled commands by names. -/
def IsSettings (value : Json) : Prop :=
  ∃ members simulation, value = .object members ∧
    (memberD members "executor" (.object [])).isObject = true ∧
    (memberD members "validation" (.object [])).isObject = true ∧
    memberD members "simulation" (.object []) = .object simulation ∧
    (memberD simulation "disabled_commands" (.array [])).isNaming = true

end Json

theorem itemsFound {value : Json} (h : value.isNaming = true) :
    ∃ items, itemsOf value = .ok items ∧ ∀ item ∈ items, item.isContainer = false := by
  cases value with
  | array items =>
    refine ⟨items, rfl, fun item inside => ?_⟩
    simpa using List.all_eq_true.mp h item inside
  | string text =>
    refine ⟨_, rfl, fun item inside => ?_⟩
    obtain ⟨c, _, rfl⟩ := List.mem_map.mp inside
    rfl
  | object members =>
    refine ⟨_, rfl, fun item inside => ?_⟩
    obtain ⟨member, _, rfl⟩ := List.mem_map.mp inside
    rfl
  | _ => cases h

theorem ExecutionSettings.ofShaped {value : Json} (h : value.isObject = true) :
    ∃ settings, ofJson value = .ok settings := by
  cases value with
  | object members => exact ⟨_, rfl⟩
  | _ => cases h

theorem ReviewSettings.ofShaped {value : Json} (h : value.isObject = true) :
    ∃ settings, ofJson value = .ok settings := by
  cases value with
  | object members => exact ⟨_, rfl⟩
  | _ => cases h

namespace SimulationSettings

theorem registryLoose {settings : SimulationSettings}
    (loose : ∀ value ∈ settings.disabled, value.isContainer = false) :
    ∃ registry, settings.registry = .ok registry :=
  Registry.disableLoose loose settings.commands

theorem ofShaped {members : List (String × Json)}
    (h : (Json.memberD members "disabled_commands" (.array [])).isNaming = true) :
    ∃ settings registry, ofJson (.object members) = .ok settings ∧ settings.registry = .ok registry := by
  obtain ⟨items, read, loose⟩ := itemsFound h
  have made : ∃ settings, ofJson (.object members) = .ok settings ∧ settings.disabled = items := by
    simp only [ofJson, membersOf, bind, Except.bind, read]
    exact ⟨_, rfl, rfl⟩
  obtain ⟨settings, made, rfl⟩ := made
  obtain ⟨registry, named⟩ := registryLoose loose
  exact ⟨settings, registry, made, named⟩

end SimulationSettings

namespace Settings

theorem ofShaped {value : Json} (h : value.IsSettings) :
    ∃ settings registry, ofJson value = .ok settings ∧ settings.simulation.registry = .ok registry := by
  obtain ⟨members, simulation, rfl, executor, validation, inside, naming⟩ := h
  obtain ⟨execution, readExecution⟩ := ExecutionSettings.ofShaped executor
  obtain ⟨review, readReview⟩ := ReviewSettings.ofShaped validation
  obtain ⟨commands, registry, readCommands, made⟩ := SimulationSettings.ofShaped naming
  refine ⟨⟨execution, commands, review⟩, registry, ?_, made⟩
  simp only [ofJson, membersOf, bind, Except.bind, inside, readExecution, readReview, readCommands]
  rfl

theorem variablesRegistry (s : Surroundings) :
    ∃ registry, (ofVariables s).simulation.registry = .ok registry := by
  refine SimulationSettings.registryLoose fun value inside => ?_
  obtain ⟨name, _, rfl⟩ := List.mem_map.mp inside
  rfl

/- A value that the settings file holds, the first that is found. -/
def InFile (s : Surroundings) (asked : Option String) (value : Json) : Prop :=
  ∃ path text, firstFile s (candidates s asked) = .ok (some path) ∧ s.read path = .ok text ∧
    Json.read text = .ok value

variable {s : Surroundings} {asked : Option String}

theorem loadFrom {path : String} (found : firstFile s (candidates s asked) = .ok (some path)) :
    load s asked = (s.read path).mapError .reading >>= fun text =>
      (Json.read text).mapError .json >>= fun value => (ofJson value).mapError .settings := by
  unfold load
  rw [found]
  rfl

theorem loadText {path text : String} (found : firstFile s (candidates s asked) = .ok (some path))
    (read : s.read path = .ok text) :
    load s asked = (Json.read text).mapError .json >>= fun value =>
      (ofJson value).mapError .settings := by
  rw [loadFrom found, read]
  rfl

/- Settings come from a file, if one is found, and else from the variables. -/
theorem loadCases (s : Surroundings) (asked : Option String) :
    (∃ fault, load s asked = .error fault ∧ ∀ f, fault ≠ .settings f) ∨
      load s asked = .ok (ofVariables s) ∨
        ∃ value, InFile s asked value ∧ load s asked = (ofJson value).mapError .settings := by
  cases found : firstFile s (candidates s asked) with
  | error fault =>
    refine .inl ⟨.reading fault, ?_, nofun⟩
    unfold load
    rw [found]
    rfl
  | ok first =>
    cases first with
    | none =>
      refine .inr (.inl ?_)
      unfold load
      rw [found]
      rfl
    | some path =>
      cases read : s.read path with
      | error fault =>
        refine .inl ⟨.reading fault, ?_, nofun⟩
        rw [loadFrom found, read]
        rfl
      | ok text =>
        have loaded := loadText found read
        cases json : Json.read text with
        | error fault =>
          rw [json] at loaded
          exact .inl ⟨.json fault, loaded, nofun⟩
        | ok value =>
          rw [json] at loaded
          exact .inr (.inr ⟨value, ⟨path, text, found, read, json⟩, loaded⟩)

theorem loadRefused {fault : SettingsFault} (h : load s asked = .error (.settings fault)) :
    ∃ value, InFile s asked value ∧ ¬ value.IsSettings := by
  rcases loadCases s asked with ⟨other, failed, apart⟩ | made | ⟨value, inFile, same⟩
  · rw [failed] at h
    cases h
    exact absurd rfl (apart fault)
  · rw [made] at h
    cases h
  · refine ⟨value, inFile, fun shaped => ?_⟩
    obtain ⟨settings, _, read, _⟩ := ofShaped shaped
    rw [same, read] at h
    cases h

theorem loadNames {settings : Settings} (h : load s asked = .ok settings) :
    (∃ registry, settings.simulation.registry = .ok registry) ∨
      ∃ value, InFile s asked value ∧ ¬ value.IsSettings := by
  rcases loadCases s asked with ⟨other, failed, _⟩ | made | ⟨value, inFile, same⟩
  · rw [failed] at h
    cases h
  · rw [made] at h
    cases h
    exact .inl (variablesRegistry s)
  · by_cases shaped : value.IsSettings
    · obtain ⟨_, registry, read, named⟩ := ofShaped shaped
      rw [same, read] at h
      cases h
      exact .inl ⟨registry, named⟩
    · exact .inr ⟨value, inFile, shaped⟩

end Settings

end Stepwise
