import Stepwise.Proofs.Json.Distinct
import Stepwise.Proofs.Settings.Shape

/-! Settings that are written out and read again. What was read from a value of any shape, or taken from
the variables, comes back as it was; and settings that are alike leave the same commands, or fail over
them in the same words. -/
namespace Stepwise

theorem itemsDistinct {value : Json} {items : List Json} (h : value.Distinct)
    (read : itemsOf value = .ok items) : ∀ x ∈ items, x.Distinct := by
  cases h with
  | array each =>
    cases read
    exact each
  | string text =>
    cases read
    intro x inside
    obtain ⟨c, _, rfl⟩ := List.mem_map.mp inside
    exact .string _
  | object each apart =>
    cases read
    intro x inside
    obtain ⟨member, _, rfl⟩ := List.mem_map.mp inside
    exact .string _
  | _ => cases read

/-! Sections. -/

/- Settings of which every field holds a value without doubled names. -/
structure Settings.Distinct (s : Settings) : Prop where
  echoTrace : s.execution.echoTrace.Distinct
  fetchUrl : s.simulation.fetchUrl.Distinct
  emailTo : s.simulation.emailTo.Distinct
  emailSubject : s.simulation.emailSubject.Distinct
  model : s.simulation.model.Distinct
  disabled : ∀ value ∈ s.simulation.disabled, value.Distinct
  enabled : s.review.enabled.Distinct
  warningsAsErrors : s.review.warningsAsErrors.Distinct

theorem Settings.Distinct.alike {s : Settings} (h : s.Distinct) : s.alike s = true := by
  have disabled : Json.allAlike s.simulation.disabled s.simulation.disabled = true :=
    Json.allAlikeSelf fun value inside => (h.disabled value inside).alike
  simp [Settings.alike, ExecutionSettings.alike, SimulationSettings.alike, ReviewSettings.alike,
    h.echoTrace.alike, h.fetchUrl.alike, h.emailTo.alike, h.emailSubject.alike, h.model.alike, disabled,
    h.enabled.alike, h.warningsAsErrors.alike]

theorem ExecutionSettings.ofJsonDistinct {value : Json} {s : ExecutionSettings} (h : value.Distinct)
    (read : ofJson value = .ok s) : s.echoTrace.Distinct := by
  cases value with
  | object members =>
    cases read
    exact h.memberD "echo_trace" (.bool false)
  | _ => cases read

theorem ReviewSettings.ofJsonDistinct {value : Json} {s : ReviewSettings} (h : value.Distinct)
    (read : ofJson value = .ok s) : s.enabled.Distinct ∧ s.warningsAsErrors.Distinct := by
  cases value with
  | object members =>
    cases read
    exact ⟨h.memberD "enabled" (.bool true), h.memberD "warnings_as_errors" (.bool false)⟩
  | _ => cases read

theorem SimulationSettings.ofJsonDistinct {value : Json} {s : SimulationSettings} (h : value.Distinct)
    (read : ofJson value = .ok s) : s.fetchUrl.Distinct ∧ s.emailTo.Distinct ∧
      s.emailSubject.Distinct ∧ s.model.Distinct ∧ ∀ x ∈ s.disabled, x.Distinct := by
  cases value with
  | object members =>
    have text (name fallback : String) : (Json.memberD members name (.string fallback)).Distinct :=
      h.memberD name (.string fallback)
    simp only [ofJson, membersOf, bind, Except.bind] at read
    cases items : itemsOf (Json.memberD members "disabled_commands" (.array [])) with
    | error fault =>
      rw [items] at read
      cases read
    | ok found =>
      rw [items] at read
      cases read
      exact ⟨text _ _, text _ _, text _ _, text _ _, itemsDistinct (h.memberD _ (.array (by simp))) items⟩
  | _ => cases read

theorem Settings.ofJsonDistinct {value : Json} {settings : Settings} (h : value.Distinct)
    (read : ofJson value = .ok settings) : settings.Distinct := by
  cases value with
  | object members =>
    have section_ (name : String) : (Json.memberD members name (.object [])).Distinct :=
      h.memberD name .empty
    simp only [ofJson, membersOf, bind, Except.bind] at read
    split at read
    · cases read
    · rename_i execution readExecution
      split at read
      · cases read
      · rename_i simulation readSimulation
        split at read
        · cases read
        · rename_i review readReview
          cases read
          have echo := ExecutionSettings.ofJsonDistinct (section_ _) readExecution
          obtain ⟨url, recipient, subject, model, disabled⟩ :=
            SimulationSettings.ofJsonDistinct (section_ _) readSimulation
          obtain ⟨enabled, warnings⟩ := ReviewSettings.ofJsonDistinct (section_ _) readReview
          exact ⟨echo, url, recipient, subject, model, disabled, enabled, warnings⟩
  | _ => cases read

theorem Settings.flagDistinct (s : Surroundings) (name : String) (fallback : Bool) :
    (flag s name (.bool fallback)).Distinct := by
  unfold flag
  cases s.valueOf? name <;> exact .bool _

theorem Settings.textDistinct (s : Surroundings) (name fallback : String) :
    (textOr s name (.string fallback)).Distinct := by
  unfold textOr
  cases s.valueOf? name <;> exact .string _

theorem Settings.ofVariablesDistinct (s : Surroundings) : (ofVariables s).Distinct where
  echoTrace := flagDistinct s _ _
  fetchUrl := textDistinct s _ _
  emailTo := textDistinct s _ _
  emailSubject := textDistinct s _ _
  model := textDistinct s _ _
  disabled value inside := by
    obtain ⟨name, _, rfl⟩ := List.mem_map.mp inside
    exact .string name
  enabled := flagDistinct s _ _
  warningsAsErrors := flagDistinct s _ _

/-! Commands. -/

/- The names of the commands that settings leave, or the words in which they fail. -/
def SimulationSettings.commandNames (s : SimulationSettings) : Except String (List String) :=
  (s.registry.map Registry.names).mapError SettingsFault.message

/- Values that are alike name one command, or none, or fail in the same words. -/
theorem Json.alikeNaming {a b : Json} (h : a.alike b = true) :
    (∃ name, a = .string name ∧ b = .string name) ∨
      (a.isContainer = true ∧ b.isContainer = true ∧ a.kindName = b.kindName) ∨
      ((∀ name, a ≠ .string name) ∧ (∀ name, b ≠ .string name) ∧
        a.isContainer = false ∧ b.isContainer = false) := by
  have nothing : Json.null.units? = none := rfl
  have text (value : String) : (Json.string value).units? = none := rfl
  have items (values : List Json) : (Json.array values).units? = none := rfl
  have members (values : List (String × Json)) : (Json.object values).units? = none := rfl
  cases a <;> cases b <;>
    simp_all [Json.alike, Json.isContainer, Json.kindName]
  -- a number has no units like those of what is no number
  all_goals
    obtain ⟨some_, none_⟩ := h
    rw [none_] at some_
    cases some_

namespace Registry

theorem disableContainer {value : Json} (inside : value.isContainer = true) (rest : List Json)
    (registry : Registry) : disable (value :: rest) registry =
      if registry.size = 0 then disable rest registry else .error (.notAName value) := by
  cases value with
  | array | object => rfl
  | _ => cases inside

theorem disableNothing {value : Json} (loose : value.isContainer = false)
    (text : ∀ name, value ≠ .string name) (rest : List Json) (registry : Registry) :
    disable (value :: rest) registry = disable rest registry := by
  cases value with
  | string name => exact absurd rfl (text name)
  | array | object => cases loose
  | _ => rfl

theorem keysErase (registry : Registry) (name : String) :
    (registry.erase name).keys = registry.keys.filter (· ≠ name) := by
  rw [Table.keys, Table.erase, Table.keys, List.filter_map]
  rfl

/- Alike values leave as many names as they found. -/
theorem disableAlike {values others : List Json} (h : Json.allAlike values others = true)
    {a b : Registry} (keys : a.keys = b.keys) :
    ((disable values a).map names).mapError SettingsFault.message =
      ((disable others b).map names).mapError SettingsFault.message := by
  induction values generalizing others a b with
  | nil =>
    cases others with
    | nil => simp [disable, Except.map, Except.mapError, names, keys]
    | cons => cases h
  | cons value values ih =>
    cases others with
    | nil => cases h
    | cons other others =>
      rw [Json.allAlike, Bool.and_eq_true] at h
      rcases Json.alikeNaming h.1 with
        ⟨name, rfl, rfl⟩ | ⟨inside, inside', kind⟩ | ⟨text, text', loose, loose'⟩
      · exact ih h.2 (by rw [keysErase, keysErase, keys])
      · have size : a.size = b.size := by
          rw [Table.size, Table.size, ← List.length_map (f := Prod.fst),
            ← List.length_map (f := Prod.fst)]
          exact congrArg List.length keys
        rw [disableContainer inside, disableContainer inside', size]
        split
        · exact ih h.2 keys
        · exact congrArg (fun kind => Except.error s!"unhashable type: '{kind}'") kind
      · rw [disableNothing loose text, disableNothing loose' text']
        exact ih h.2 keys

end Registry

/- Settings that are alike leave the same commands, or fail in the same words. -/
theorem Settings.commandsAlike {s t : Settings} (h : s.alike t = true) :
    s.simulation.commandNames = t.simulation.commandNames := by
  have keys (settings : SimulationSettings) :
      settings.commands.keys = Simulated.all.map Simulated.name := by rfl
  have simulation : s.simulation.alike t.simulation = true :=
    (Bool.and_eq_true_iff.mp (Bool.and_eq_true_iff.mp h).1).2
  have disabled : Json.allAlike s.simulation.disabled t.simulation.disabled = true :=
    (Bool.and_eq_true_iff.mp simulation).2
  exact Registry.disableAlike disabled (by rw [keys, keys])

/-! Back and forth. -/

/- Settings that come back as they were: what is read from what was written is alike to them, is written
as the same, and leaves the same commands or fails in the same words, as all settings do that are alike. -/
structure Settings.Survives (settings : Settings) : Prop where
  readable : ∃ again, ofJson settings.toJson = .ok again ∧ again = settings ∧
    again.alike settings = true ∧ again.toJson = settings.toJson ∧
    again.simulation.commandNames = settings.simulation.commandNames
  commands : ∀ other : Settings, other.alike settings = true →
    other.simulation.commandNames = settings.simulation.commandNames

theorem Settings.Distinct.survives {settings : Settings} (h : settings.Distinct) :
    settings.Survives where
  readable := ⟨settings, rfl, rfl, h.alike, rfl, commandsAlike h.alike⟩
  commands _ same := commandsAlike same

/- No file can hold settings that do not survive. -/
theorem Settings.loadSurvives {s : Surroundings} {asked : Option String} {settings : Settings}
    (loaded : load s asked = .ok settings) : settings.Survives := by
  rcases loadCases s asked with ⟨_, failed, _⟩ | made | ⟨value, ⟨_, _, _, _, text⟩, same⟩
  · rw [failed] at loaded
    cases loaded
  · rw [made] at loaded
    cases loaded
    exact (ofVariablesDistinct s).survives
  · rw [same] at loaded
    cases read : ofJson value with
    | error fault =>
      rw [read] at loaded
      cases loaded
    | ok found =>
      rw [read] at loaded
      cases loaded
      exact (ofJsonDistinct (Json.readDistinct text) read).survives

/- Settings survive being written out, whatever they were read from and whatever the variables are. -/
theorem settingsSurvive :
    (∀ value settings, value.Distinct → Settings.ofJson value = .ok settings → settings.Survives) ∧
      ∀ s : Surroundings, (Settings.ofVariables s).Survives :=
  ⟨fun _ _ distinct read => (Settings.ofJsonDistinct distinct read).survives,
    fun s => (Settings.ofVariablesDistinct s).survives⟩

/- Settings with members of unexpected kinds: a list with a number that is none, no temperature, and a
text whose characters are taken for names. -/
def oddExecution : Json := .object [("echo_trace", .array [.number .nan, .null])]

def oddSimulation : Json :=
  .object [("generate_default_temperature", .null), ("disabled_commands", .string "ab")]

def oddSettings : Json :=
  .object [("executor", oddExecution), ("simulation", oddSimulation), ("more", .bool true)]

theorem oddSettingsSurvive : oddSettings.Distinct ∧ ∃ settings,
    Settings.ofJson oddSettings = .ok settings ∧ settings.simulation.temperature = "None" ∧
      settings.simulation.toJson = .object [("fetch_default_url", .string "https://api.example.com"),
        ("email_default_to", .string "user@example.com"),
        ("email_default_subject", .string "Notification"),
        ("generate_default_model", .string "mistral-small-latest"),
        ("generate_default_temperature", .string "None"),
        ("disabled_commands", .array [.string "a", .string "b"])] ∧
      settings.Survives := by
  have execution : oddExecution.Distinct := by
    have listed : (Json.array [.number .nan, .null]).Distinct :=
      .array (by simp [Json.Distinct.number, Json.Distinct.null])
    exact .object (by simp [listed]) (by simp)
  have simulation : oddSimulation.Distinct :=
    .object (by simp [Json.Distinct.null, Json.Distinct.string]) (by simp)
  have distinct : oddSettings.Distinct :=
    .object (by simp [execution, simulation, Json.Distinct.bool]) (by simp)
  exact ⟨distinct, _, rfl, rfl, rfl, settingsSurvive.1 _ _ distinct rfl⟩

end Stepwise
