import Stepwise.Text.Digit
import Stepwise.Text.Quoted

/-! Arguments of a command, told apart into options and plain values. An option may be shortened to
any beginning that no other option shares, and a value may be tied to it by an equals sign; behind
`--` everything is a value. -/
namespace Stepwise.CommandLine
open Text

inductive Piece (α : Type) where
  | value
  | dashes
  | known (spelling : String) (option : α) (tied : Option String)
  | unknown
  deriving Repr

def splitEquals (arg : String) : String × Option String :=
  let cs := arg.toList
  let before := cs.takeWhile (· != '=')
  let rest := cs.drop before.length
  (String.ofList before, if rest.isEmpty then none else some (String.ofList (rest.drop 1)))

def looksNegative (arg : String) : Bool :=
  let cs := arg.toList.drop 1
  let body := if cs.getLast? = some '\n' then cs.dropLast else cs
  let digit (c : Char) : Bool := (digitValue? c).isSome
  let rest := body.dropWhile digit
  if rest.head? = some '.' then !(rest.drop 1).isEmpty && (rest.drop 1).all digit
  else rest.isEmpty && !body.isEmpty

/-- The options that an argument may stand for. One dash and one letter may be followed by more
letters or by a value; two dashes open a name that may be shortened. -/
def readings {α : Type} (options : List (String × α)) (arg : String) :
    List (String × α × Option String) :=
  if (arg.toList.drop 1).head? = some '-' then
    let (name, value) := splitEquals arg
    (options.filter fun o => name.toList.isPrefixOf o.1.toList).map fun o =>
      (o.1, o.2, value)
  else
    options.filterMap fun o =>
      if o.1.toList = arg.toList.take 2 then
        some (o.1, o.2, some (String.ofList (arg.toList.drop 2)))
      else if arg.toList.isPrefixOf o.1.toList then some (o.1, o.2, none)
      else none

def classify {α : Type} (options : List (String × α)) (arg : String) : Except String (Piece α) :=
  let (name, value) := splitEquals arg
  if arg.toList.head? ≠ some '-' then .ok .value
  else match options.lookup arg with
    | some o => .ok (.known arg o none)
    | none =>
        if arg = "-" then .ok .value
        else match value, options.lookup name with
          | some v, some o => .ok (.known name o (some v))
          | _, _ =>
              match readings options arg with
              | [] =>
                  if looksNegative arg ∨ ' ' ∈ arg.toList then .ok .value else .ok .unknown
              | [(spelling, o, tied)] => .ok (.known spelling o tied)
              | several =>
                  let names := ", ".intercalate (several.map fun reading => reading.1)
                  .error s!"ambiguous option: {arg} could match {names}"

def classifyAll {α : Type} (options : List (String × α)) :
    List String → Except String (List (String × Piece α))
  | [] => .ok []
  | arg :: rest =>
      if arg = "--" then .ok ((arg, .dashes) :: rest.map fun a => (a, .value))
      else do
        let piece ← classify options arg
        let pieces ← classifyAll options rest
        return (arg, piece) :: pieces

def ignored (value : String) : String := "ignored explicit argument " ++ quoted value

/-- What is tied to `-h` for nothing. Each letter `h` in front of it asks for help once more, as long
as there is one. -/
def ignoredBehindHelp (value : String) : Option String :=
  let rest := value.toList.dropWhile (· = 'h')
  if value ≠ "" ∧ rest = [] then none else some (String.ofList rest)

def tiedToNothing? (spelling : String) (tied : Option String) : Option String :=
  tied.bind fun value =>
    if (spelling.toList.drop 1).head? = some '-' then some (ignored value)
    else (ignoredBehindHelp value).map ignored

end Stepwise.CommandLine
