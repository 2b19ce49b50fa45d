import Stepwise.Numeral
import Stepwise.Program
import Stepwise.Token

/-! Tokens into a program, one token at a time. A state says what has been read and what may follow;
a token either continues an optional part, or closes it and has to be what the grammar requires
next. Nothing behind a token takes part in whether it is accepted. -/
namespace Stepwise

inductive Wanted where
  | topLevel | workflowName | workflowStart | workflowEnd | variableName | variableEqual
  | step | stepNumber | stepColon | commandName | argumentsEnd
  | conditionStart | conditionEnd | thenStart | thenEnd | elseStart | elseEnd
  | operand | referencedNumber | propertyName
  deriving DecidableEq, Repr

def Wanted.text : Wanted → String
  | .topLevel => "Expected workflow or variable declaration"
  | .workflowName => "Expected workflow name string"
  | .workflowStart => "Expected '\x7b' after workflow name"
  | .workflowEnd => "Expected '\x7d' after workflow body"
  | .variableName => "Expected variable name"
  | .variableEqual => "Expected '=' after variable name"
  | .step => "Expected 'step'"
  | .stepNumber => "Expected step number"
  | .stepColon => "Expected ':' after step number"
  | .commandName => "Expected command name"
  | .argumentsEnd => "Expected ')' after command arguments"
  | .conditionStart => "Expected '(' after 'if'"
  | .conditionEnd => "Expected ')' after condition"
  | .thenStart => "Expected '\x7b' after condition"
  | .thenEnd => "Expected '\x7d' after if block"
  | .elseStart => "Expected '\x7b' after 'else'"
  | .elseEnd => "Expected '\x7d' after else block"
  | .operand => "Expected expression"
  | .referencedNumber => "Expected step number after 'step'"
  | .propertyName => "Expected property name after '.'"

inductive ParseCause where
  | unexpected (wanted : Wanted)
  | notInteger
  | tooLong (digits : Nat)
  | foreignDigit
  | notNumber
  deriving DecidableEq, Repr

def ParseCause.isNumeric : ParseCause → Bool
  | .tooLong _ | .foreignDigit | .notNumber => true
  | _ => false

/-- The cause, the lexeme at fault unless it is the end of input, and the line. -/
structure ParseFault where
  cause : ParseCause
  found : Option String
  line : Nat
  deriving DecidableEq, Repr

def shownIntegerLength : Nat := 200

def ParseFault.text (fault : ParseFault) : String :=
  let found := fault.found.getD ""
  match fault.cause with
  | .unexpected wanted =>
      wanted.text ++ ", found " ++ fault.found.elim "end of input" fun lexeme => s!"'{lexeme}'"
  | .notInteger => s!"Step number must be an integer, got '{found}'"
  | .tooLong digits => Numeral.tooLongMessage digits
  | .foreignDigit =>
      "invalid literal for int() with base 10: " ++
        String.ofList ((Text.quotedChars found.toList).take shownIntegerLength)
  | .notNumber => "could not convert string to float: " ++ Text.quoted found

def ParseFault.message (fault : ParseFault) : String :=
  if fault.cause.isNumeric then fault.text else s!"{fault.text} at line {fault.line}"

namespace Assembly

structure Head where
  id : Int
  line : Nat
  deriving Repr

inductive Block where
  | workflow (name : String) (line : Nat) (steps : List Step)
  | thenPart (outer : Block) (head : Head) (condition : Expr) (ifLine : Nat) (steps : List Step)
  | elsePart (outer : Block) (head : Head) (condition : Expr) (ifLine : Nat)
      (body steps : List Step)
  deriving Repr

def Block.add : Block → Step → Block
  | .workflow name line steps, s => .workflow name line (steps ++ [s])
  | .thenPart outer head condition ifLine steps, s =>
      .thenPart outer head condition ifLine (steps ++ [s])
  | .elsePart outer head condition ifLine body steps, s =>
      .elsePart outer head condition ifLine body (steps ++ [s])

def Block.wantedEnd : Block → Wanted
  | .workflow .. => .workflowEnd
  | .thenPart .. => .thenEnd
  | .elsePart .. => .elseEnd

structure Call where
  head : Head
  name : String
  line : Nat
  deriving Repr

def Call.step (call : Call) (arguments : List Expr) : Step :=
  .command call.head.id call.name arguments (some call.head.line) (some call.line)

inductive Slot where
  | value (keyword : Keyword) (name : String) (line : Nat)
  | argument (block : Block) (call : Call) (before : List Expr)
  | condition (block : Block) (head : Head) (line : Nat)
  deriving Repr

structure Joint where
  left : Expr
  operator : String
  line : Nat
  deriving Repr

def joined : Option Joint → Expr → Expr
  | none, e => e
  | some j, e => .binary j.left j.operator e (some j.line)

/-- The place in the grammar. Those named `…Read` may be followed by an optional part. -/
inductive Phase where
  | top
  | workflowName (line : Nat)
  | workflowStart (name : String) (line : Nat)
  | variableName (keyword : Keyword) (line : Nat)
  | variableEqual (keyword : Keyword) (name : String) (line : Nat)
  | steps (block : Block)
  | stepNumber (block : Block) (line : Nat)
  | stepColon (block : Block) (head : Head)
  | stepContent (block : Block) (head : Head)
  | commandRead (block : Block) (call : Call)
  | argumentsStart (block : Block) (call : Call)
  | argumentsEnd (block : Block) (call : Call) (arguments : List Expr)
  | conditionStart (block : Block) (head : Head) (line : Nat)
  | conditionEnd (block : Block) (head : Head) (line : Nat) (condition : Expr)
  | thenStart (block : Block) (head : Head) (line : Nat) (condition : Expr)
  | thenRead (block : Block) (head : Head) (line : Nat) (condition : Expr) (body : List Step)
  | elseStart (block : Block) (head : Head) (line : Nat) (condition : Expr) (body : List Step)
  | operand (slot : Slot) (joint : Option Joint)
  | nameRead (slot : Slot) (joint : Option Joint) (name : String) (line : Nat)
  | nameProperty (slot : Slot) (joint : Option Joint) (name : String) (line : Nat)
  | referencedNumber (slot : Slot) (joint : Option Joint) (line : Nat)
  | referenceRead (slot : Slot) (joint : Option Joint) (id : Int) (line : Nat)
  | referenceProperty (slot : Slot) (joint : Option Joint) (id : Int) (line : Nat)
  | operandRead (slot : Slot) (operand : Expr)
  deriving Repr

structure State where
  declarations : List Declaration
  workflows : List Workflow
  phase : Phase
  deriving Repr

def start : State := ⟨[], [], .top⟩

namespace State

def move (s : State) (phase : Phase) : State := { s with phase }

def fill (s : State) (e : Expr) : Slot → State
  | .value keyword name line =>
      ⟨s.declarations ++ [⟨keyword.spelling, name, e, some line⟩], s.workflows, .top⟩
  | .argument block call before => s.move (.argumentsEnd block call (before ++ [e]))
  | .condition block head line => s.move (.conditionEnd block head line e)

def close (s : State) : Block → State
  | .workflow name line steps =>
      ⟨s.declarations, s.workflows ++ [⟨name, steps, some line⟩], .top⟩
  | .thenPart outer head condition ifLine steps =>
      s.move (.thenRead outer head ifLine condition steps)
  | .elsePart outer head condition ifLine body steps =>
      s.move (.steps (outer.add
        (.ifElse head.id condition body steps (some head.line) (some ifLine))))

def settle (s : State) : State :=
  match s.phase with
  | .commandRead block call => s.move (.steps (block.add (call.step [])))
  | .thenRead block head line condition body =>
      s.move (.steps (block.add (.ifOnly head.id condition body (some head.line) (some line))))
  | .nameRead slot joint name line => s.fill (joined joint (.name name (some line))) slot
  | .referenceRead slot joint id line => s.fill (joined joint (.result id none (some line))) slot
  | .operandRead slot e => s.fill e slot
  | _ => s

def operand? (s : State) : Option (Slot × Expr) :=
  match s.phase with
  | .nameRead slot joint name line => some (slot, joined joint (.name name (some line)))
  | .referenceRead slot joint id line => some (slot, joined joint (.result id none (some line)))
  | .operandRead slot e => some (slot, e)
  | _ => none

def extend? (s : State) (t : Token) : Option State :=
  match s.phase, t.kind with
  | .commandRead block call, .mark .leftParen => some (s.move (.argumentsStart block call))
  | .thenRead block head line condition body, .keyword .elseWord =>
      some (s.move (.elseStart block head line condition body))
  | .nameRead slot joint name line, .mark .dot => some (s.move (.nameProperty slot joint name line))
  | .referenceRead slot joint id line, .mark .dot =>
      some (s.move (.referenceProperty slot joint id line))
  | _, .mark m =>
      if m.joins then
        s.operand?.map fun found => s.move (.operand found.1 (some ⟨found.2, t.lexeme, t.line⟩))
      else none
  | _, _ => none

def stepNumber (t : Token) : Except ParseCause Int :=
  match Numeral.readNat t.lexeme with
  | .ok n => .ok n
  | .error .notDigits => .error .notInteger
  | .error (.tooLong digits) => .error (.tooLong digits)
  | .error .foreignDigit => .error .foreignDigit

def operand (s : State) (slot : Slot) (joint : Option Joint) (t : Token) :
    Except ParseCause State :=
  match t.kind with
  | .string =>
      .ok (s.move (.operandRead slot (joined joint (.text (t.literal.getD "") (some t.line)))))
  | .number =>
      match Numeral.read? t.lexeme with
      | some x => .ok (s.move (.operandRead slot (joined joint (.number x (some t.line)))))
      | none => .error .notNumber
  | .identifier => .ok (s.move (.nameRead slot joint t.lexeme t.line))
  | .keyword .step => .ok (s.move (.referencedNumber slot joint t.line))
  | _ => .error (.unexpected .operand)

def shift (s : State) (t : Token) : Except ParseCause State :=
  match s.phase with
  | .top =>
      match t.kind with
      | .keyword .workflow => .ok (s.move (.workflowName t.line))
      | .keyword word =>
          if word.declares then .ok (s.move (.variableName word t.line))
          else .error (.unexpected .topLevel)
      | _ => .error (.unexpected .topLevel)
  | .workflowName line =>
      if t.kind = .string then .ok (s.move (.workflowStart (t.literal.getD "") line))
      else .error (.unexpected .workflowName)
  | .workflowStart name line =>
      if t.kind = .mark .leftBrace then .ok (s.move (.steps (.workflow name line [])))
      else .error (.unexpected .workflowStart)
  | .variableName word line =>
      if t.kind = .identifier then .ok (s.move (.variableEqual word t.lexeme line))
      else .error (.unexpected .variableName)
  | .variableEqual word name line =>
      if t.kind = .mark .equal then .ok (s.move (.operand (.value word name line) none))
      else .error (.unexpected .variableEqual)
  | .steps block =>
      if t.kind = .mark .rightBrace then .ok (s.close block)
      else if t.kind = .keyword .step then .ok (s.move (.stepNumber block t.line))
      else .error (.unexpected .step)
  | .stepNumber block line =>
      if t.kind = .number then do
        let id ← stepNumber t
        return s.move (.stepColon block ⟨id, line⟩)
      else .error (.unexpected .stepNumber)
  | .stepColon block head =>
      if t.kind = .mark .colon then .ok (s.move (.stepContent block head))
      else .error (.unexpected .stepColon)
  | .stepContent block head =>
      match t.kind with
      | .identifier => .ok (s.move (.commandRead block ⟨head, t.lexeme, t.line⟩))
      | .keyword .ifWord => .ok (s.move (.conditionStart block head t.line))
      | .keyword word =>
          if word.namesCommand then .ok (s.move (.commandRead block ⟨head, t.lexeme, t.line⟩))
          else .error (.unexpected .commandName)
      | _ => .error (.unexpected .commandName)
  | .argumentsStart block call =>
      if t.kind = .mark .rightParen then .ok (s.move (.steps (block.add (call.step []))))
      else s.operand (.argument block call []) none t
  | .argumentsEnd block call arguments =>
      if t.kind = .mark .rightParen then .ok (s.move (.steps (block.add (call.step arguments))))
      else if t.kind = .mark .comma then .ok (s.move (.operand (.argument block call arguments) none))
      else .error (.unexpected .argumentsEnd)
  | .conditionStart block head line =>
      if t.kind = .mark .leftParen then .ok (s.move (.operand (.condition block head line) none))
      else .error (.unexpected .conditionStart)
  | .conditionEnd block head line condition =>
      if t.kind = .mark .rightParen then .ok (s.move (.thenStart block head line condition))
      else .error (.unexpected .conditionEnd)
  | .thenStart block head line condition =>
      if t.kind = .mark .leftBrace then .ok (s.move (.steps (.thenPart block head condition line [])))
      else .error (.unexpected .thenStart)
  | .elseStart block head line condition body =>
      if t.kind = .mark .leftBrace then
        .ok (s.move (.steps (.elsePart block head condition line body [])))
      else .error (.unexpected .elseStart)
  | .operand slot joint => s.operand slot joint t
  | .referencedNumber slot joint line =>
      if t.kind = .number then do
        let id ← stepNumber t
        return s.move (.referenceRead slot joint id line)
      else .error (.unexpected .referencedNumber)
  | .nameProperty slot joint name line =>
      if t.kind = .identifier then
        .ok (s.move (.operandRead slot
          (joined joint (.property (.name name (some line)) t.lexeme (some line)))))
      else .error (.unexpected .propertyName)
  | .referenceProperty slot joint id line =>
      if t.kind = .identifier then
        .ok (s.move (.operandRead slot (joined joint (.result id (some t.lexeme) (some line)))))
      else .error (.unexpected .propertyName)
  | .commandRead .. | .thenRead .. | .nameRead .. | .referenceRead .. | .operandRead .. =>
      .error (.unexpected .topLevel)

def feed (s : State) (t : Token) : Except ParseCause State :=
  match s.extend? t with
  | some next => .ok next
  | none => s.settle.shift t

def missing? (s : State) : Option Wanted :=
  match s.phase with
  | .top => none
  | .workflowName _ => some .workflowName
  | .workflowStart .. => some .workflowStart
  | .variableName .. => some .variableName
  | .variableEqual .. => some .variableEqual
  | .steps block => some block.wantedEnd
  | .stepNumber .. => some .stepNumber
  | .stepColon .. => some .stepColon
  | .stepContent .. => some .commandName
  | .argumentsEnd .. => some .argumentsEnd
  | .conditionStart .. => some .conditionStart
  | .conditionEnd .. => some .conditionEnd
  | .thenStart .. => some .thenStart
  | .elseStart .. => some .elseStart
  | .argumentsStart .. | .operand .. => some .operand
  | .referencedNumber .. => some .referencedNumber
  | .nameProperty .. | .referenceProperty .. => some .propertyName
  | .commandRead .. | .thenRead .. | .nameRead .. | .referenceRead .. | .operandRead .. =>
      some .topLevel

def finish (s : State) : Except Wanted Program :=
  match s.settle.missing? with
  | none => .ok ⟨s.settle.declarations, s.settle.workflows, some 1⟩
  | some wanted => .error wanted

end State

structure Attempt where
  outcome : Except ParseFault Program
  rest : List Token

/-- A token whose number is at fault has been passed; any other token at fault has not. -/
def run (endLine : Nat) (s : State) : List Token → Attempt
  | [] =>
      match s.finish with
      | .ok p => ⟨.ok p, []⟩
      | .error wanted => ⟨.error ⟨.unexpected wanted, none, endLine⟩, []⟩
  | t :: rest =>
      match s.feed t with
      | .ok next => run endLine next rest
      | .error (.unexpected wanted) => ⟨.error ⟨.unexpected wanted, some t.lexeme, t.line⟩, t :: rest⟩
      | .error cause => ⟨.error ⟨cause, some t.lexeme, t.line⟩, rest⟩

/-- The tokens in front of the first end of input, and the line of that end. Without one, the input
ends on the line of its last token. -/
structure Input where
  tokens : List Token
  endLine : Nat

def Input.ofTokens (ts : List Token) : Input :=
  ⟨ts.takeWhile (·.kind != .endOfInput),
    ((ts.find? (·.kind = .endOfInput)).elim (ts.getLast?.elim 1 Token.line) Token.line)⟩

def Input.read (input : Input) : Attempt := run input.endLine start input.tokens

def Input.readMany (input : Input) : Nat → List (Except ParseFault Program)
  | 0 => []
  | times + 1 =>
      input.read.outcome :: Input.readMany ⟨input.read.rest, input.endLine⟩ times

end Assembly

def parse (ts : List Token) : Except ParseFault Program := (Assembly.Input.ofTokens ts).read.outcome

end Stepwise
