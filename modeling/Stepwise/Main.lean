import Std.Time.Format
import Stepwise.CommandLine.Session

/-! The program. It looks up what an invocation may ask about the machine, has the command line
answered, and hands out the answer. -/
namespace Stepwise

/-- What is found under a path. What cannot be opened for any other reason counts as missing. -/
def lookUp (path : String) : IO Entry := do
  if path.toList.contains '\x00' then return .unnameable
  try
    let bytes ← IO.FS.readBinFile path
    return .file bytes.toList
  catch
    | .inappropriateType _ 21 _ => return .directory
    | .inappropriateType .. => return .throughFile
    | .invalidArgument .. => return .tooLong
    | _ => return .missing

partial def drain (stream : IO.FS.Stream) (done : ByteArray) : IO ByteArray := do
  let more ← stream.read 65536
  if more.isEmpty then return done else drain stream (done ++ more)

def survey (args : List String) : IO Surroundings := do
  let bound ← Settings.variableNames.mapM fun name => do return (name, ← IO.getEnv name)
  let home := (← IO.getEnv "HOME").getD "/"
  let current := toString (← IO.currentDir)
  let blank : Surroundings :=
    { look := fun _ => .missing, valueOf? := fun name => (bound.lookup name).join,
      home, current, input := [] }
  match CommandLine.Invocation.ofArguments args with
  | .error _ => return blank
  | .ok invocation =>
      let entries ← (invocation.paths blank).mapM fun path => do return (path, ← lookUp path)
      let input ←
        if invocation.task.input? = some "-" then drain (← IO.getStdin) .empty else pure .empty
      return { blank with
        look := fun path => (entries.lookup path).getD .missing, input := input.toList }

def stamp : IO String := do
  let now ← Std.Time.PlainDateTime.now
  return now.format "uuuu-MM-dd HH:mm:ss,SSS"

def handOut (time : String) (outcome : CommandLine.Outcome) : IO Unit := do
  let err ← IO.getStderr
  IO.print outcome.output
  for note in outcome.notes do
    match note with
    | .said text => err.putStr text
    | .logged entry => err.putStr (CommandLine.logLine time entry)
  match outcome.log with
  | none => return
  | some (path, entries) =>
      let file ← IO.FS.Handle.mk path .append
      for entry in entries do
        file.putStr (CommandLine.logLine time entry)

end Stepwise

open Stepwise in
def main (args : List String) : IO UInt32 := do
  match CommandLine.answer (← survey args) args with
  | .ok outcome =>
      handOut (← stamp) outcome
      return outcome.exit.toUInt32
  | .error breakdown =>
      (← IO.getStderr).putStr (breakdown.message ++ "\n")
      return 1
