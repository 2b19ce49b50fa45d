import Stepwise.Text.Digit
import Stepwise.Token

/-! Workflow text into tokens. At each place the longest lexeme is cut off; what is cut is a count of
characters, so the lexemes and the layout between them are the text itself. -/
namespace Stepwise
open Text

inductive LexCause where
  | illegal (c : Char)
  | unterminated
  deriving DecidableEq, Repr

/-- A fault and its line; that of a string that never ends is the line of its opening quote. -/
structure LexFault where
  cause : LexCause
  line : Nat
  deriving DecidableEq, Repr

def LexCause.text : LexCause → String
  | .illegal c => s!"Unexpected character '{c}'"
  | .unterminated => "Unterminated string"

def LexFault.message (fault : LexFault) : String := s!"{fault.cause.text} at line {fault.line}"

namespace Lexer

def isLayout (c : Char) : Bool := c == ' ' || c == '\t' || c == '\r' || c == '\n'

def isWordChar (c : Char) : Bool := isLetter c || isDigit c

def isQuote (c : Char) : Bool := c == doubleMark || c == apostrophe

def newlines (s : List Char) : Nat := s.count '\n'

def markAt? (c : Char) (rest : List Char) : Option (Mark × Nat) :=
  (Mark.all.find? fun m => m.spelling.length = 2 ∧ m.spelling.isPrefixOf (c :: rest)).elim
    ((Mark.all.find? fun m => m.spelling = [c]).map (·, 0))
    fun m => some (m, 1)

def numberLength (rest : List Char) : Nat :=
  let whole := (rest.takeWhile isDigit).length
  let fraction := ((rest.drop (whole + 1)).takeWhile isDigit).length
  if (rest.drop whole).head? = some '.' ∧ 0 < fraction then whole + 1 + fraction else whole

inductive Cut where
  | layout
  | token (kind : TokenKind) (more : Nat)
  | fault (cause : LexCause)
  deriving DecidableEq, Repr

def wordKind (word : String) : TokenKind := (Keyword.ofSpelling? word).elim .identifier .keyword

def cut (c : Char) (rest : List Char) : Cut :=
  if isLayout c then .layout
  else if isQuote c then
    let body := (rest.takeWhile (· != c)).length
    if body < rest.length then .token .string (body + 1) else .fault .unterminated
  else if isDigit c then .token .number (numberLength rest)
  else if isLetter c then
    let more := (rest.takeWhile isWordChar).length
    .token (wordKind (String.ofList (c :: rest.take more))) more
  else match markAt? c rest with
    | some (mark, more) => .token (.mark mark) more
    | none => .fault (.illegal c)

def literal? (kind : TokenKind) (lexeme : List Char) : Option String :=
  match kind with
  | .string => some (String.ofList (lexeme.drop 1).dropLast)
  | .number => some (String.ofList lexeme)
  | _ => none

structure Scan where
  tokens : List Token
  rest : List Char
  line : Nat
  fault : Option LexFault
  deriving Repr

/-- Scans on, with the tokens found so far, last first. A fault ends the scan behind the character
at fault, or behind all of the text if a string never ends. -/
def scan (line : Nat) (found : List Token) : List Char → Scan
  | [] => ⟨(Token.endAt line :: found).reverse, [], line, none⟩
  | c :: rest =>
      match cut c rest with
      | .layout => scan (line + newlines [c]) found rest
      | .token kind more =>
          let lexeme := c :: rest.take more
          let token := ⟨kind, String.ofList lexeme, literal? kind lexeme, line⟩
          scan (line + newlines lexeme) (token :: found) (rest.drop more)
      | .fault .unterminated => ⟨found.reverse, [], line + newlines rest, some ⟨.unterminated, line⟩⟩
      | .fault cause => ⟨found.reverse, rest, line, some ⟨cause, line⟩⟩
  termination_by s => s.length
  decreasing_by all_goals simp; try omega

def start (s : String) : Scan := ⟨[], s.toList, 1, none⟩

def Scan.resume (s : Scan) : Scan := scan s.line s.tokens.reverse s.rest

def Scan.result (s : Scan) : Except LexFault (List Token) :=
  match s.fault with
  | some fault => .error fault
  | none => .ok s.tokens

end Lexer

def tokenize (s : String) : Except LexFault (List Token) := (Lexer.start s).resume.result

end Stepwise
