import Stepwise.Json.Written
import Stepwise.Registry
import Stepwise.Settings

/-! Ten commands that stand in for outside services. Each says one line and succeeds; the settings
supply arguments that were left out. -/
namespace Stepwise

inductive Simulated where
  | print | log | notify | fetch | sendEmail | input | generate | output | transform | validate
  deriving DecidableEq, Repr

namespace Simulated

def all : List Simulated :=
  [.print, .log, .notify, .fetch, .sendEmail, .input, .generate, .output, .transform, .validate]

def name : Simulated → String
  | .print => "print"
  | .log => "log"
  | .notify => "notify"
  | .fetch => "fetch"
  | .sendEmail => "send_email"
  | .input => "input"
  | .generate => "generate"
  | .output => "output"
  | .transform => "transform"
  | .validate => "validate"

def argument (arguments : List String) (place : Nat) (fallback : Json) : Json :=
  (arguments[place]?).elim fallback .string

def succeed (said data message : String) : Reply := ⟨[said], .result (.ok data message)⟩

def payload (members : List (String × Json)) : String := (Json.object members).line

def reply (settings : SimulationSettings) (arguments : List String) : Simulated → Reply
  | .print =>
      let text := " ".intercalate arguments
      succeed s!"Print: {text}" text "Print executed successfully"
  | .log =>
      let text := " ".intercalate arguments
      succeed s!"Log: {text}" text "Log executed successfully"
  | .notify =>
      let text := " ".intercalate arguments
      succeed s!"Notify: {text}" text "Notification sent successfully"
  | .sendEmail =>
      let recipient := (argument arguments 0 settings.emailTo).shown
      let subject := (argument arguments 1 settings.emailSubject).shown
      succeed s!"Send Email: {recipient} - {subject}" s!"Email sent to {recipient}" "Email sent successfully"
  | .fetch =>
      let url := (argument arguments 0 settings.fetchUrl).shown
      succeed s!"Fetch: {url}" (payload [("data", .string s!"Sample data from {url}")])
        "Fetch completed successfully"
  | .input =>
      let variableName := argument arguments 0 (.string "user_input")
      let type := argument arguments 1 (.string "text")
      let placeholder := argument arguments 2 (.string "Enter value")
      let said := "Input: Collect '" ++ variableName.shown ++ "' as " ++ type.shown ++ " (" ++
        placeholder.shown ++ ")"
      succeed said
        (payload [("variable", variableName), ("type", type), ("placeholder", placeholder)])
        "Input collected successfully"
  | .generate =>
      let prompt := (argument arguments 0 (.string "Generate content")).shown
      let model := argument arguments 1 settings.model
      let temperature := argument arguments 2 (.string settings.temperature)
      let said := "Generate: Using " ++ model.shown ++ " (temp: " ++ temperature.shown ++
        ") with prompt: '" ++ prompt ++ "'"
      succeed said
        (payload [("content", .string s!"Generated content for: {prompt}"), ("model", model),
          ("temperature", temperature)])
        "Content generated successfully"
  | .output =>
      let data := argument arguments 0 (.string "data")
      let format := argument arguments 1 (.string "text")
      let file := argument arguments 2 (.string "output")
      let said := "Output: Export " ++ data.shown ++ " as " ++ format.shown ++ " to " ++ file.shown
      succeed said (payload [("exported", data), ("format", format), ("file", file)])
        "Output exported successfully"
  | .transform =>
      let data := argument arguments 0 (.string "data")
      let type := argument arguments 1 (.string "format")
      succeed ("Transform: Apply " ++ type.shown ++ " to " ++ data.shown)
        (payload [("transformed", data), ("type", type)]) "Data transformed successfully"
  | .validate =>
      let data := argument arguments 0 (.string "data")
      let type := argument arguments 1 (.string "required")
      succeed ("Validate: Check " ++ data.shown ++ " for " ++ type.shown)
        (payload [("validated", data), ("type", type), ("valid", .bool true)])
        "Validation completed successfully"

def handler (settings : SimulationSettings) (s : Simulated) : Handler :=
  fun arguments => s.reply settings arguments

def ofName? (name : String) : Option Simulated := all.find? (·.name = name)

end Simulated

def SimulationSettings.commands (settings : SimulationSettings) : Registry :=
  Table.ofList (Simulated.all.map fun s => (s.name, s.handler settings))

/-- Takes out the commands that a list of settings values names. What is no text names none, but a
list or an object cannot even be looked up, unless no command is left to look among. -/
def Registry.disable : List Json → Registry → Except SettingsFault Registry
  | [], r => .ok r
  | value :: rest, r =>
      match value with
      | .string name => disable rest (r.erase name)
      | .array _ | .object _ => if r.size = 0 then disable rest r else .error (.notAName value)
      | _ => disable rest r

def SimulationSettings.registry (settings : SimulationSettings) : Except SettingsFault Registry :=
  Registry.disable settings.disabled settings.commands

end Stepwise
