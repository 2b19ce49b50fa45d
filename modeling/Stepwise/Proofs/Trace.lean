import Stepwise.Proofs.Text.Quoted
import Stepwise.Token.Lexer
import Stepwise.Trace

/-! Calls read back from a trace. The event of a command that is dispatched names it and quotes its
arguments, so that no two calls look alike. -/
namespace Stepwise
open Text

/- What may name a command in a text: a letter, and letters and digits behind it. -/
def IsIdentifier (name : String) : Prop :=
  ∃ first more, name.toList = first :: more ∧ isLetter first = true ∧
    ∀ c ∈ more, Lexer.isWordChar c = true

/-! Reading a call. -/

/- Quoted texts, each behind a comma and a blank, up to a bracket that ends the text. -/
def furtherArguments? (s : List Char) : Option (List String) :=
  match s with
  | [')'] => some []
  | ',' :: ' ' :: rest =>
      match _ : unquoted? rest with
      | some (argument, behind) => (furtherArguments? behind).map (argument :: ·)
      | none => none
  | _ => none
  termination_by s.length
  decreasing_by
    have shorter := unquotedShorter ‹_›
    simp only [List.length_cons]
    omega

def arguments? (s : List Char) : Option (List String) :=
  if s = [')'] then some []
  else (unquoted? s).bind fun first => (furtherArguments? first.2).map (first.1 :: ·)

def callWords : List Char := "Command: ".toList

/- The name and the arguments that a line of a trace tells, however deep it is indented. -/
def callRead? (line : String) : Option (String × List String) :=
  let s := line.toList.dropWhile (· == ' ')
  if callWords.isPrefixOf s then
    let call := s.drop callWords.length
    let name := call.takeWhile (· != '(')
    (arguments? (call.drop (name.length + 1))).map (String.ofList name, ·)
  else none

section
variable {name other : String} {arguments values : List String}

/- Arguments behind the first one, as they are written. -/
def furtherChars (arguments : List String) : List Char :=
  arguments.flatMap fun argument => ',' :: ' ' :: quotedChars argument.toList

def argumentChars : List String → List Char
  | [] => []
  | first :: more => quotedChars first.toList ++ furtherChars more

theorem argumentsWritten (arguments : List String) :
    (", ".intercalate (arguments.map quoted)).toList = argumentChars arguments := by
  have quotedList (s : String) : (quoted s).toList = quotedChars s.toList := String.toList_ofList
  rw [String.toList_intercalate, List.map_map]
  cases arguments with
  | nil => rfl
  | cons first more =>
    unfold argumentChars
    induction more generalizing first with
    | nil => simp [quotedList, furtherChars]
    | cons second rest ih =>
      have behind := ih second
      rw [List.map_cons] at behind
      rw [List.map_cons, List.map_cons, List.intercalate_cons_cons, behind, Function.comp, quotedList]
      simp [furtherChars]

theorem furtherRead (arguments : List String) :
    furtherArguments? (furtherChars arguments ++ [')']) = some arguments := by
  induction arguments with
  | nil =>
    unfold furtherArguments?
    rfl
  | cons argument rest ih =>
    have written : furtherChars (argument :: rest) ++ [')'] =
        ',' :: ' ' :: (quotedChars argument.toList ++ (furtherChars rest ++ [')'])) := by
      simp [furtherChars]
    have read := quotedRead argument (furtherChars rest ++ [')'])
    rw [written, furtherArguments?]
    split
    · rename_i found
      cases read.symm.trans found
      rw [ih]
      rfl
    · rename_i missed
      cases read.symm.trans missed

theorem argumentsRead (arguments : List String) :
    arguments? (argumentChars arguments ++ [')']) = some arguments := by
  cases arguments with
  | nil => rfl
  | cons first more =>
    have opened : argumentChars (first :: more) ++ [')'] ≠ [')'] := by
      simp [argumentChars, quotedChars]
    rw [arguments?, if_neg opened, argumentChars, List.append_assoc, quotedRead, Option.bind_some,
      furtherRead]
    rfl

theorem IsIdentifier.plain (h : IsIdentifier name) : ∀ c ∈ name.toList, (c != '(') = true := by
  obtain ⟨first, more, spelled, letter, wordly⟩ := h
  intro c inside
  rw [spelled] at inside
  refine bne_iff_ne.mpr ?_
  rintro rfl
  rcases List.mem_cons.mp inside with rfl | later
  · cases letter
  · cases wordly _ later

def callChars (name : String) (arguments : List String) : List Char :=
  callWords ++ (name.toList ++ '(' :: (argumentChars arguments ++ [')']))

/- A call is read from the text that tells it, behind any blanks. -/
theorem callCharsRead (named : IsIdentifier name) (arguments : List String) (depth : Nat) :
    callRead? (String.ofList (List.replicate depth ' ' ++ callChars name arguments)) =
      some (name, arguments) := by
  have indented : (List.replicate depth ' ' ++ callChars name arguments).dropWhile (· == ' ') =
      callChars name arguments := by
    rw [List.dropWhile_append_of_pos fun c inside => beq_iff_eq.mpr (List.eq_of_mem_replicate inside)]
    rfl
  have begins : callWords.isPrefixOf (callChars name arguments) = true :=
    List.isPrefixOf_iff_prefix.mpr (List.prefix_append _ _)
  have behind : (callChars name arguments).drop callWords.length =
      name.toList ++ '(' :: (argumentChars arguments ++ [')']) := List.drop_left
  have word : (name.toList ++ '(' :: (argumentChars arguments ++ [')'])).takeWhile (· != '(') =
      name.toList := by
    rw [List.takeWhile_append_of_pos named.plain]
    exact List.append_nil _
  have rest : (name.toList ++ '(' :: (argumentChars arguments ++ [')'])).drop (name.toList.length + 1) =
      argumentChars arguments ++ [')'] := by
    rw [← List.drop_drop, List.drop_left]
    rfl
  rw [callRead?, String.toList_ofList, indented]
  dsimp only
  rw [if_pos begins, behind, word, rest, argumentsRead, Option.map_some, String.ofList_toList]

end

/-! The events of calls. -/

/- The event that is recorded of a call. -/
def Position.callEvent (q : Position) (name : String) (arguments : List String) : Event :=
  ⟨.dispatch, String.ofList (callChars name arguments), q.workflow, q.step, q.depth + 1⟩

theorem callEvents (q : Position) (name : String) (arguments : List String) (rest : List Occurrence) :
    q.events (.dispatched name arguments :: rest) = q.callEvent name arguments :: q.events rest := by
  have spelled : callChars name arguments = ("Command: " ++ name ++ "(" ++
      ", ".intercalate (arguments.map quoted) ++ ")").toList := by
    simp only [String.toList_append, argumentsWritten, List.append_assoc]
    rfl
  rw [Position.callEvent, spelled, String.ofList_toList]
  rfl

theorem callRead {name : String} (named : IsIdentifier name) (q : Position) (arguments : List String) :
    callRead? (q.callEvent name arguments).message = some (name, arguments) ∧
      callRead? (q.callEvent name arguments).line = some (name, arguments) := by
  have line : (q.callEvent name arguments).line =
      String.ofList (List.replicate (2 * (q.depth + 1)) ' ' ++ callChars name arguments) :=
    String.ofList_append.symm
  exact ⟨callCharsRead named arguments 0, line ▸ callCharsRead named arguments _⟩

def Occurrence.call? : Occurrence → Option (String × List String)
  | .dispatched name arguments => some (name, arguments)
  | _ => none

/- The calls of a run, in their order, are read back from the events that it records of them. -/
theorem callsRead {os : List Occurrence}
    (named : ∀ name arguments, .dispatched name arguments ∈ os → IsIdentifier name) (q : Position) :
    ((q.events os).filter (·.kind = .dispatch)).map (fun e => callRead? e.line) =
      (os.filterMap Occurrence.call?).map some := by
  induction os generalizing q with
  | nil => rfl
  | cons o rest ih =>
    have behind := ih fun name arguments inside => named name arguments (List.mem_cons_of_mem _ inside)
    cases o with
    | dispatched name arguments =>
      obtain ⟨_, read⟩ := callRead (named name arguments List.mem_cons_self) q arguments
      rw [callEvents, List.filter_cons_of_pos (by rfl), List.map_cons, behind, read]
      rfl
    | branched taken hasElse => cases taken <;> cases hasElse <;> exact behind _
    | _ => exact behind _

/- The event of a call tells which it is: its name and every argument are read back from the message, and
from the line with its indentation, so that no other call has the same message. -/
theorem callsApart {name other : String} (named : IsIdentifier name) (named' : IsIdentifier other)
    (arguments values : List String) (q q' : Position) :
    ∃ e e', q.events [.dispatched name arguments] = [e] ∧ q'.events [.dispatched other values] = [e'] ∧
      e.kind = .dispatch ∧ e'.kind = .dispatch ∧
      callRead? e.message = some (name, arguments) ∧ callRead? e.line = some (name, arguments) ∧
      (e.message = e'.message → name = other ∧ arguments = values) := by
  obtain ⟨message, line⟩ := callRead named q arguments
  obtain ⟨message', _⟩ := callRead named' q' values
  refine ⟨_, _, callEvents .., callEvents .., rfl, rfl, message, line, fun same => ?_⟩
  rw [same, message'] at message
  cases message
  exact ⟨rfl, rfl⟩

/- A separator, a mark and a line end within an argument. -/
theorem printCallsApart :
    IsIdentifier "print" ∧ IsIdentifier "_p1" ∧ ∃ e e',
      Position.start.events [.dispatched "print" ["a', 'b\n"]] = [e] ∧
        Position.start.events [.dispatched "_p1" ["a", "b"]] = [e'] ∧
        callRead? e.message = some ("print", ["a', 'b\n"]) ∧ e.message ≠ e'.message := by
  have named : IsIdentifier "print" := ⟨'p', ['r', 'i', 'n', 't'], rfl, rfl, List.all_eq_true.mp rfl⟩
  have named' : IsIdentifier "_p1" := ⟨'_', ['p', '1'], rfl, rfl, List.all_eq_true.mp rfl⟩
  obtain ⟨e, e', told, told', _, _, read, _, apart⟩ := callsApart named named' ["a', 'b\n"] ["a", "b"]
    .start .start
  exact ⟨named, named', e, e', told, told', read, fun same => absurd (apart same).1 (by decide)⟩

end Stepwise
