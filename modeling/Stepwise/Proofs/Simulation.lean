import Stepwise.Proofs.Execution.Answers
import Stepwise.Proofs.Json.Ascii

/-! What the simulated commands answer. Each of them says one line and succeeds. The payload of a command
that has one is an object, of which every member is filled from an argument, or with what stands in for an
argument that was left out. -/
namespace Stepwise

/- Settings in which every field holds text. -/
structure SimulationTexts where
  fetchUrl : String := "https://api.example.com"
  emailTo : String := "user@example.com"
  emailSubject : String := "Notification"
  model : String := "mistral-small-latest"
  temperature : String := "0.7"
  disabled : List String := []
  deriving DecidableEq, Repr

def SimulationTexts.settings (texts : SimulationTexts) : SimulationSettings where
  fetchUrl := .string texts.fetchUrl
  emailTo := .string texts.emailTo
  emailSubject := .string texts.emailSubject
  model := .string texts.model
  temperature := texts.temperature
  disabled := texts.disabled.map .string

example : SimulationTexts.settings {} = .default := rfl

/- How a member of a payload is filled: with the argument at a place behind some words, where `fallback`
stands in for an argument that is missing, or always with the same truth value. -/
inductive Filling where
  | argument (place : Nat) (fallback : String) (words : String)
  | fixed (value : Bool)
  deriving DecidableEq, Repr

namespace Filling

def value (arguments : List String) : Filling → Json
  | .argument place fallback words => .string (words ++ arguments[place]?.getD fallback)
  | .fixed value => .bool value

/- How many arguments are asked for. -/
def places : Filling → Nat
  | .argument place .. => place + 1
  | .fixed _ => 0

end Filling

/- The payloads as they are documented. -/
def Simulated.members? (texts : SimulationTexts) : Simulated → Option (List (String × Filling))
  | .fetch => some [("data", .argument 0 texts.fetchUrl "Sample data from ")]
  | .input => some [("variable", .argument 0 "user_input" ""), ("type", .argument 1 "text" ""),
      ("placeholder", .argument 2 "Enter value" "")]
  | .generate => some [("content", .argument 0 "Generate content" "Generated content for: "),
      ("model", .argument 1 texts.model ""), ("temperature", .argument 2 texts.temperature "")]
  | .output => some [("exported", .argument 0 "data" ""), ("format", .argument 1 "text" ""),
      ("file", .argument 2 "output" "")]
  | .transform => some [("transformed", .argument 0 "data" ""), ("type", .argument 1 "format" "")]
  | .validate => some [("validated", .argument 0 "data" ""), ("type", .argument 1 "required" ""),
      ("valid", .fixed true)]
  | .print | .log | .notify | .sendEmail => none

/- The object that a payload stands for. -/
def payloadOf (members : List (String × Filling)) (arguments : List String) : Json :=
  .object (members.map fun member => (member.1, member.2.value arguments))

section
variable {texts : SimulationTexts} {s : Simulated} {arguments : List String}
  {members : List (String × Filling)}

theorem argumentText (arguments : List String) (place : Nat) (fallback : String) :
    Simulated.argument arguments place (.string fallback) = .string (arguments[place]?.getD fallback) := by
  unfold Simulated.argument
  cases arguments[place]? <;> rfl

theorem payloadReplies {said message : String} {given : List (String × Json)}
    (same : given = members.map fun member => (member.1, member.2.value arguments)) :
    ∃ line message', Simulated.succeed said (Simulated.payload given) message =
      ⟨[line], .result (.ok (payloadOf members arguments).line message')⟩ :=
  ⟨said, message, by rw [same]; rfl⟩

theorem repliesPayload (listed : s.members? texts = some members) (arguments : List String) :
    ∃ line message, s.reply texts.settings arguments =
      ⟨[line], .result (.ok (payloadOf members arguments).line message)⟩ := by
  have plain (text : String) : toString text = text := rfl
  unfold Simulated.reply
  cases s with
  | print | log | notify | sendEmail => cases listed
  | _ =>
    cases listed
    refine payloadReplies ?_
    simp [SimulationTexts.settings, argumentText, Json.shown, Filling.value, plain]

/- Where there are enough arguments, further ones change nothing. -/
theorem repliesAlike (listed : s.members? texts = some members)
    (enough : ∀ member ∈ members, member.2.places ≤ arguments.length) (surplus : List String) :
    s.reply texts.settings (arguments ++ surplus) = s.reply texts.settings arguments := by
  have kept {place : Nat} (fallback : Json) (there : place < arguments.length) :
      Simulated.argument (arguments ++ surplus) place fallback =
        Simulated.argument arguments place fallback := by
    unfold Simulated.argument
    rw [List.getElem?_append_left there]
  cases s with
  | print | log | notify | sendEmail => cases listed
  | _ =>
    cases listed
    simp only [List.forall_mem_cons, Filling.places] at enough
    simp (disch := omega) only [Simulated.reply, kept]

theorem Filling.legible (filling : Filling) (arguments : List String) :
    (filling.value arguments).Legible := by
  cases filling with
  | argument place fallback words => exact .string _
  | fixed value => exact .bool value

theorem payloadLegible (listed : s.members? texts = some members) (arguments : List String) :
    (payloadOf members arguments).Legible := by
  have distinct : (members.map Prod.fst).Nodup := by
    cases s <;> cases listed <;> simp
  refine .object (fun member inside => ?_) (by rwa [List.map_map])
  obtain ⟨given, _, rfl⟩ := List.mem_map.mp inside
  exact given.2.legible arguments

theorem Simulated.replied (s : Simulated) (settings : SimulationSettings) (arguments : List String) :
    ∃ line data message, s.reply settings arguments = ⟨[line], .result ⟨true, data, 200, message⟩⟩ := by
  cases s <;> exact ⟨_, _, _, rfl⟩

theorem Simulated.named (s : Simulated) : Simulated.ofName? s.name = some s := by
  cases s <;> rfl

theorem SimulationSettings.commandsGet (settings : SimulationSettings) (s : Simulated) :
    settings.commands.get? s.name = some (s.handler settings) := by
  have held : settings.commands.contains s.name = true := (settings.commandsHold s.name).mpr ⟨s, rfl⟩
  obtain ⟨handler, found⟩ := Option.isSome_iff_exists.mp held
  obtain ⟨other, _, same⟩ := List.mem_map.mp (Table.getOfList found)
  obtain ⟨name, rfl⟩ := Prod.mk.inj same
  have one : other = s := Option.some.inj (other.named.symm.trans (name ▸ s.named))
  rw [found, one]

end

/- Each command that is registered says one line and succeeds. A payload is ASCII text and read back as the
object that is documented, filled from the arguments, of which those that are not asked for do not count. -/
theorem simulatedAnswers (texts : SimulationTexts) :
    ∃ registry, texts.settings.registry = .ok registry ∧
      (∀ name, registry.contains name = true ↔
        (∃ s : Simulated, s.name = name) ∧ name ∉ texts.disabled) ∧
      ∀ s : Simulated, s.name ∉ texts.disabled → ∀ arguments, ∃ line data message,
        registry.dispatch? s.name arguments = some ⟨[line], .result ⟨true, data, 200, message⟩⟩ ∧
        ∀ members, s.members? texts = some members →
          Json.Ascii data.toList ∧ Json.read data = .ok (payloadOf members arguments) ∧
          ((∀ member ∈ members, member.2.places ≤ arguments.length) → ∀ surplus,
            registry.dispatch? s.name (arguments ++ surplus) = registry.dispatch? s.name arguments) := by
  have made : texts.settings.registry = .ok (texts.settings.commands.without texts.disabled) :=
    Registry.disableNames texts.settings.commands texts.disabled
  have listed : texts.settings.disabled = texts.disabled.map .string := rfl
  obtain ⟨registry, same, named⟩ := SimulationSettings.registryNamed listed
  cases made.symm.trans same
  refine ⟨_, made, named, fun s enabled arguments => ?_⟩
  have dispatched (arguments : List String) :
      (texts.settings.commands.without texts.disabled).dispatch? s.name arguments =
        some (s.reply texts.settings arguments) := by
    rw [Registry.dispatch?, Registry.withoutGet, if_neg enabled, SimulationSettings.commandsGet]
    rfl
  obtain ⟨line, data, message, replied⟩ := s.replied texts.settings arguments
  refine ⟨line, data, message, by rw [dispatched, replied], fun members listed => ?_⟩
  obtain ⟨_, _, filled⟩ := repliesPayload listed arguments
  have data : data = (payloadOf members arguments).line := by
    rw [replied] at filled
    cases filled
    rfl
  have legible := payloadLegible listed arguments
  have read : Json.read (String.ofList (Json.chars none (payloadOf members arguments) ++ [])) = _ :=
    Json.readWritten legible none nofun
  rw [List.append_nil] at read
  refine ⟨?ascii, data ▸ read, fun enough surplus => ?alike⟩
  case ascii =>
    rw [data, Json.line, String.toList_ofList]
    exact legible.ascii none
  case alike => rw [dispatched, dispatched, repliesAlike listed enough]

/- One argument of two, and settings that disable another command. -/
theorem validateAnswers :
    ∃ registry, (SimulationTexts.settings { disabled := ["fetch"] }).registry = .ok registry ∧
      registry.contains "fetch" = false ∧ ∃ line data message,
        registry.dispatch? "validate" ["a\"b"] = some ⟨[line], .result ⟨true, data, 200, message⟩⟩ ∧
        Json.read data = .ok (.object
          [("validated", .string "a\"b"), ("type", .string "required"), ("valid", .bool true)]) := by
  obtain ⟨registry, made, named, each⟩ := simulatedAnswers { disabled := ["fetch"] }
  obtain ⟨line, data, message, replied, payload⟩ := each .validate (by decide) ["a\"b"]
  have gone : ¬ registry.contains "fetch" = true := fun held => ((named "fetch").mp held).2 (by decide)
  exact ⟨registry, made, Bool.eq_false_iff.mpr gone, line, data, message, replied,
    (payload _ rfl).2.1⟩

end Stepwise
