import Stepwise.Json.Reading
import Stepwise.Settings
import Stepwise.Surroundings
import Stepwise.Text.Blank

/-! Where settings come from: a file, or else the variables of the surroundings. -/
namespace Stepwise
open Text

namespace Settings

def variableNames : List String :=
  ["TRADEFLOW_CONFIG", "TRADEFLOW_ECHO_TRACE", "TRADEFLOW_FETCH_DEFAULT_URL",
   "TRADEFLOW_EMAIL_DEFAULT_TO", "TRADEFLOW_EMAIL_DEFAULT_SUBJECT",
   "TRADEFLOW_GENERATE_DEFAULT_MODEL", "TRADEFLOW_GENERATE_DEFAULT_TEMPERATURE",
   "TRADEFLOW_DISABLED_COMMANDS", "TRADEFLOW_VALIDATE", "TRADEFLOW_WARNINGS_AS_ERRORS"]

def onWords : List String := ["true", "1", "yes"]

def flag (s : Surroundings) (name : String) (fallback : Json) : Json :=
  (s.valueOf? name).elim fallback fun value => .bool (value.toLower ∈ onWords)

def textOr (s : Surroundings) (name : String) (fallback : Json) : Json :=
  (s.valueOf? name).elim fallback .string

def commaList (value : String) : List String :=
  ((value.splitOn ",").map fun part => String.ofList (trim part.toList)).filter (· ≠ "")

def ofVariables (s : Surroundings) : Settings :=
  let base := SimulationSettings.default
  { execution := ⟨flag s "TRADEFLOW_ECHO_TRACE" ExecutionSettings.default.echoTrace⟩
    simulation :=
      ⟨textOr s "TRADEFLOW_FETCH_DEFAULT_URL" base.fetchUrl,
        textOr s "TRADEFLOW_EMAIL_DEFAULT_TO" base.emailTo,
        textOr s "TRADEFLOW_EMAIL_DEFAULT_SUBJECT" base.emailSubject,
        textOr s "TRADEFLOW_GENERATE_DEFAULT_MODEL" base.model,
        (s.valueOf? "TRADEFLOW_GENERATE_DEFAULT_TEMPERATURE").getD base.temperature,
        (commaList ((s.valueOf? "TRADEFLOW_DISABLED_COMMANDS").getD "")).map .string⟩
    review :=
      ⟨flag s "TRADEFLOW_VALIDATE" ReviewSettings.default.enabled,
        flag s "TRADEFLOW_WARNINGS_AS_ERRORS" ReviewSettings.default.warningsAsErrors⟩ }

def fileName : String := "tradeflow.config.json"

def searchPaths (s : Surroundings) : List String :=
  [fileName, s.home ++ "/.tradeflow/" ++ fileName, "/etc/tradeflow/" ++ fileName]

/-- The paths to try: the one asked for, else the one that a variable names, else all that are
searched. An empty name counts as none. -/
def candidates (s : Surroundings) (asked : Option String) : List String :=
  match asked with
  | some path => if path = "" then unasked else [path]
  | none => unasked
where
  unasked : List String :=
    match s.valueOf? "TRADEFLOW_CONFIG" with
    | some path => if path = "" then searchPaths s else [path]
    | none => searchPaths s

def firstFile (s : Surroundings) : List String → Except ReadingFault (Option String)
  | [] => .ok none
  | path :: rest =>
      match s.look path with
      | .file _ => .ok (some path)
      | .tooLong => .error (.file .tooLong (Path.spelled path))
      | _ => firstFile s rest

inductive LoadFault where
  | reading (fault : ReadingFault)
  | json (fault : Json.ReadFault)
  | settings (fault : SettingsFault)

def LoadFault.message : LoadFault → String
  | .reading fault => fault.message
  | .json fault => fault.message
  | .settings fault => fault.message

def load (s : Surroundings) (asked : Option String) : Except LoadFault Settings := do
  match ← (firstFile s (candidates s asked)).mapError .reading with
  | none => return ofVariables s
  | some path =>
      let text ← (s.read path).mapError .reading
      let value ← (Json.read text).mapError .json
      (ofJson value).mapError .settings

end Settings
end Stepwise
