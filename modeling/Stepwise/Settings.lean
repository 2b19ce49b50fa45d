import Stepwise.Json.Shown

/-! Settings. A field holds whatever value it was given; only the temperature is turned into text and
the disabled commands into a list. Defaults stand in for what is missing. -/
namespace Stepwise

structure ExecutionSettings where
  echoTrace : Json
  deriving Repr

structure SimulationSettings where
  fetchUrl : Json
  emailTo : Json
  emailSubject : Json
  model : Json
  temperature : String
  disabled : List Json
  deriving Repr

structure ReviewSettings where
  enabled : Json
  warningsAsErrors : Json
  deriving Repr

structure Settings where
  execution : ExecutionSettings
  simulation : SimulationSettings
  review : ReviewSettings
  deriving Repr

inductive SettingsFault where
  | noMembers (value : Json)
  | notIterable (value : Json)
  | notAName (value : Json)

def SettingsFault.message : SettingsFault → String
  | .noMembers value => s!"'{value.kindName}' object has no attribute 'get'"
  | .notIterable value => s!"'{value.kindName}' object is not iterable"
  | .notAName value => s!"unhashable type: '{value.kindName}'"

def ExecutionSettings.default : ExecutionSettings := ⟨.bool false⟩

def SimulationSettings.default : SimulationSettings :=
  ⟨.string "https://api.example.com", .string "user@example.com", .string "Notification",
    .string "mistral-small-latest", "0.7", []⟩

def ReviewSettings.default : ReviewSettings := ⟨.bool true, .bool false⟩

def Settings.default : Settings := ⟨.default, .default, .default⟩

def membersOf : Json → Except SettingsFault (List (String × Json))
  | .object members => .ok members
  | value => .error (.noMembers value)

def itemsOf : Json → Except SettingsFault (List Json)
  | .array items => .ok items
  | .string s => .ok (s.toList.map fun c => .string (String.singleton c))
  | .object members => .ok (members.map fun member => .string member.1)
  | value => .error (.notIterable value)

namespace ExecutionSettings

def ofJson (value : Json) : Except SettingsFault ExecutionSettings := do
  let members ← membersOf value
  return ⟨Json.memberD members "echo_trace" default.echoTrace⟩

def toJson (s : ExecutionSettings) : Json := .object [("echo_trace", s.echoTrace)]

def alike (a b : ExecutionSettings) : Bool := a.echoTrace.alike b.echoTrace

end ExecutionSettings

namespace SimulationSettings

def ofJson (value : Json) : Except SettingsFault SimulationSettings := do
  let members ← membersOf value
  let get := Json.memberD members
  let temperature := get "generate_default_temperature" (.string default.temperature)
  let disabled ← itemsOf (get "disabled_commands" (.array []))
  return ⟨get "fetch_default_url" default.fetchUrl, get "email_default_to" default.emailTo,
    get "email_default_subject" default.emailSubject, get "generate_default_model" default.model,
    temperature.shown, disabled⟩

def toJson (s : SimulationSettings) : Json :=
  .object [("fetch_default_url", s.fetchUrl), ("email_default_to", s.emailTo),
    ("email_default_subject", s.emailSubject), ("generate_default_model", s.model),
    ("generate_default_temperature", .string s.temperature), ("disabled_commands", .array s.disabled)]

def alike (a b : SimulationSettings) : Bool :=
  a.fetchUrl.alike b.fetchUrl && a.emailTo.alike b.emailTo && a.emailSubject.alike b.emailSubject &&
    a.model.alike b.model && a.temperature == b.temperature && Json.allAlike a.disabled b.disabled

end SimulationSettings

namespace ReviewSettings

def ofJson (value : Json) : Except SettingsFault ReviewSettings := do
  let members ← membersOf value
  return ⟨Json.memberD members "enabled" default.enabled,
    Json.memberD members "warnings_as_errors" default.warningsAsErrors⟩

def toJson (s : ReviewSettings) : Json :=
  .object [("enabled", s.enabled), ("warnings_as_errors", s.warningsAsErrors)]

def alike (a b : ReviewSettings) : Bool :=
  a.enabled.alike b.enabled && a.warningsAsErrors.alike b.warningsAsErrors

end ReviewSettings

namespace Settings

def ofJson (value : Json) : Except SettingsFault Settings := do
  let members ← membersOf value
  let execution ← ExecutionSettings.ofJson (Json.memberD members "executor" (.object []))
  let simulation ← SimulationSettings.ofJson (Json.memberD members "simulation" (.object []))
  let review ← ReviewSettings.ofJson (Json.memberD members "validation" (.object []))
  return ⟨execution, simulation, review⟩

def toJson (s : Settings) : Json :=
  .object [("executor", s.execution.toJson), ("simulation", s.simulation.toJson),
    ("validation", s.review.toJson)]

def alike (a b : Settings) : Bool :=
  a.execution.alike b.execution && a.simulation.alike b.simulation && a.review.alike b.review

end Settings
end Stepwise
