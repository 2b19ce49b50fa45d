import Stepwise.Program.Assembly

/-! Tokens into a program by recursive descent: a function for each rule of the grammar, and a cursor that
they share. The cursor may be anywhere, and where the tokens are looked at is kept. A loop goes on for as
long as it finds what it looks for. It is given a number of rounds, and has no value if those do not
suffice; a loop that does not come to an end has none however many they are. -/
namespace Stepwise.Descent
open Assembly (Call Head)

/-- `outside` is a look beyond the last token, `vanished` a keyword that has been seen and is not there
when it is taken. -/
inductive Stop where
  | fault (fault : ParseFault)
  | outside
  | vanished (word : Keyword)
  deriving DecidableEq, Repr

/-- The cursor, and each index at which the tokens have been looked at, the first one first. -/
structure Place where
  cursor : Nat
  looked : List Nat
  deriving DecidableEq, Repr

namespace Place

def start : Place := ⟨0, []⟩

def look (place : Place) : Place := { place with looked := place.looked ++ [place.cursor] }

def pass (place : Place) : Place := { place with cursor := place.cursor + 1 }

end Place

/-- What is read, or why reading stops; both leave a place. -/
abbrev Reader := ExceptT Stop (StateT Place Option)

def unfinished {α : Type} : Reader α := fun _ => none

/-- The tokens, with an end of input behind them unless there is one already. -/
def ended (ts : List Token) : List Token :=
  match ts.getLast? with
  | none => [.endAt 1]
  | some last => if last.kind = .endOfInput then ts else ts ++ [.endAt last.line]

def joins : TokenKind → Bool
  | .mark m => m.joins
  | _ => false

def startsCommand : TokenKind → Bool
  | .identifier => true
  | .keyword word => word.namesCommand
  | _ => false

def held : Option Token → Reader Token
  | some t => return t
  | none => throw .outside

section
variable (ts : List Token)

def peek : Reader Token := do
  let place ← get
  set place.look
  held ts[place.cursor]?

def check (kind : TokenKind) : Reader Bool := do
  let t ← peek ts
  return t.kind = kind

def atEnd : Reader Bool := check ts .endOfInput

/-- An end of input is not passed. -/
def advance : Reader Token := do
  let t ← peek ts
  if ← atEnd ts then return t
  else
    modify Place.pass
    return t

def take (kind : TokenKind) : Reader Bool := do
  if ← check ts kind then
    let _ ← advance ts
    return true
  else return false

def refuse {α : Type} (wanted : Wanted) : Reader α := do
  let t ← peek ts
  throw (.fault ⟨.unexpected wanted, if t.kind = .endOfInput then none else some t.lexeme, t.line⟩)

def consume (kind : TokenKind) (wanted : Wanted) : Reader Token := do
  if ← check ts kind then advance ts else refuse ts wanted

def again (word : Keyword) : Reader Token := do
  if ← check ts (.keyword word) then advance ts else throw (.vanished word)

def stepNumber (wanted : Wanted) : Reader Int := do
  let t ← consume ts .number wanted
  match Assembly.State.stepNumber t with
  | .ok id => return id
  | .error cause => throw (.fault ⟨cause, some t.lexeme, t.line⟩)

/-! Expressions. -/

def property? : Reader (Option String) := do
  if ← take ts (.mark .dot) then
    let part ← consume ts .identifier .propertyName
    return some part.lexeme
  else return none

def primary : Reader Expr := do
  let t ← peek ts
  match t.kind with
  | .string =>
      let _ ← advance ts
      return .text (t.literal.getD "") (some t.line)
  | .number =>
      let _ ← advance ts
      match Numeral.read? t.lexeme with
      | some x => return .number x (some t.line)
      | none => throw (.fault ⟨.notNumber, some t.lexeme, t.line⟩)
  | .identifier =>
      let _ ← advance ts
      match ← property? ts with
      | some part => return .property (.name t.lexeme (some t.line)) part (some t.line)
      | none => return .name t.lexeme (some t.line)
  | .keyword .step =>
      let _ ← advance ts
      let id ← stepNumber ts .referencedNumber
      let part ← property? ts
      return .result id part (some t.line)
  | _ => refuse ts .operand

def chain : Nat → Expr → Reader Expr
  | 0, _ => unfinished
  | rounds + 1, left => do
      let t ← peek ts
      if joins t.kind then
        let operator ← advance ts
        let right ← primary ts
        chain rounds (.binary left operator.lexeme right (some operator.line))
      else return left

def expression (rounds : Nat) : Reader Expr := do
  let left ← primary ts
  chain ts rounds left

/-! Steps. -/

def furtherArguments : Nat → List Expr → Reader (List Expr)
  | 0, _ => unfinished
  | rounds + 1, before => do
      if ← take ts (.mark .comma) then
        let e ← expression ts rounds
        furtherArguments rounds (before ++ [e])
      else return before

def arguments (rounds : Nat) : Reader (List Expr) := do
  if ← check ts (.mark .rightParen) then return []
  else
    let e ← expression ts rounds
    furtherArguments ts rounds [e]

def command (rounds : Nat) (head : Head) : Reader Step := do
  let t ← peek ts
  if startsCommand t.kind then
    let _ ← advance ts
    let call : Call := ⟨head, t.lexeme, t.line⟩
    if ← take ts (.mark .leftParen) then
      let found ← arguments ts rounds
      let _ ← consume ts (.mark .rightParen) .argumentsEnd
      return call.step found
    else return call.step []
  else refuse ts .commandName

/-- A block is read by what reads the steps in it. -/
def block (inner : Reader (List Step)) (wanted : Wanted) : Reader (List Step) := do
  let found ← inner
  let _ ← consume ts (.mark .rightBrace) wanted
  return found

def conditional (rounds : Nat) (inner : Reader (List Step)) (head : Head) : Reader Step := do
  let keyword ← again ts .ifWord
  let _ ← consume ts (.mark .leftParen) .conditionStart
  let condition ← expression ts rounds
  let _ ← consume ts (.mark .rightParen) .conditionEnd
  let _ ← consume ts (.mark .leftBrace) .thenStart
  let body ← block ts inner .thenEnd
  if ← take ts (.keyword .elseWord) then
    let _ ← consume ts (.mark .leftBrace) .elseStart
    let other ← block ts inner .elseEnd
    return .ifElse head.id condition body other (some head.line) (some keyword.line)
  else return .ifOnly head.id condition body (some head.line) (some keyword.line)

def step (rounds : Nat) (inner : Reader (List Step)) : Reader Step := do
  let keyword ← consume ts (.keyword .step) .step
  let id ← stepNumber ts .stepNumber
  let _ ← consume ts (.mark .colon) .stepColon
  if ← check ts (.keyword .ifWord) then conditional ts rounds inner ⟨id, keyword.line⟩
  else command ts rounds ⟨id, keyword.line⟩

/-- The steps up to a closing brace or the end. -/
def steps : Nat → List Step → Reader (List Step)
  | 0, _ => unfinished
  | rounds + 1, before => do
      if ← check ts (.mark .rightBrace) then return before
      else if ← atEnd ts then return before
      else
        let found ← step ts rounds (steps rounds [])
        steps rounds (before ++ [found])

/-! Programs. -/

def workflow (rounds : Nat) : Reader Workflow := do
  let keyword ← again ts .workflow
  let name ← consume ts .string .workflowName
  let _ ← consume ts (.mark .leftBrace) .workflowStart
  let found ← block ts (steps ts rounds []) .workflowEnd
  return ⟨name.literal.getD "", found, some keyword.line⟩

def declaration (rounds : Nat) (word : Keyword) : Reader Declaration := do
  let keyword ← advance ts
  let name ← consume ts .identifier .variableName
  let _ ← consume ts (.mark .equal) .variableEqual
  let value ← expression ts rounds
  return ⟨word.spelling, name.lexeme, value, some keyword.line⟩

def items : Nat → List Declaration → List Workflow → Reader Program
  | 0, _, _ => unfinished
  | rounds + 1, declarations, workflows => do
      if ← atEnd ts then return ⟨declarations, workflows, some 1⟩
      else
        let t ← peek ts
        match t.kind with
        | .keyword .workflow =>
            let found ← workflow ts rounds
            items rounds declarations (workflows ++ [found])
        | .keyword word =>
            if word.declares then
              let found ← declaration ts rounds word
              items rounds (declarations ++ [found]) workflows
            else refuse ts .topLevel
        | _ => refuse ts .topLevel

def program (rounds : Nat) : Reader Program := items ts rounds [] []

/-- One reading after another. Each goes on where the one before it left off, also after a fault. -/
def readings (rounds : Nat) : Nat → StateT Place Option (List (Except Stop Program))
  | 0 => pure []
  | times + 1 => do
      let answer ← (program ts rounds).run
      let answers ← readings rounds times
      return answer :: answers

end
end Stepwise.Descent
