import Stepwise.Text.Quoted

/-! Tokens of workflow text. -/
namespace Stepwise

inductive Keyword where
  | workflow | step | letWord | varWord | constWord | ifWord | elseWord
  | print | log | fetch | sendEmail | notify
  deriving DecidableEq, Repr

namespace Keyword

def all : List Keyword :=
  [.workflow, .step, .letWord, .varWord, .constWord, .ifWord, .elseWord,
   .print, .log, .fetch, .sendEmail, .notify]

def spelling : Keyword → String
  | .workflow => "workflow"
  | .step => "step"
  | .letWord => "let"
  | .varWord => "var"
  | .constWord => "const"
  | .ifWord => "if"
  | .elseWord => "else"
  | .print => "print"
  | .log => "log"
  | .fetch => "fetch"
  | .sendEmail => "send_email"
  | .notify => "notify"

def ofSpelling? (word : String) : Option Keyword := all.find? (·.spelling = word)

def namesCommand : Keyword → Bool
  | .print | .log | .fetch | .sendEmail | .notify => true
  | _ => false

def declares : Keyword → Bool
  | .letWord | .varWord | .constWord => true
  | _ => false

end Keyword

inductive Mark where
  | plus | equal | equalEqual | notEqual | greater | less | greaterEqual | lessEqual | dot
  | leftParen | rightParen | leftBrace | rightBrace | colon | semicolon | comma
  deriving DecidableEq, Repr

namespace Mark

def all : List Mark :=
  [.plus, .equal, .equalEqual, .notEqual, .greater, .less, .greaterEqual, .lessEqual, .dot,
   .leftParen, .rightParen, .leftBrace, .rightBrace, .colon, .semicolon, .comma]

def spelling : Mark → List Char
  | .plus => ['+']
  | .equal => ['=']
  | .equalEqual => ['=', '=']
  | .notEqual => ['!', '=']
  | .greater => ['>']
  | .less => ['<']
  | .greaterEqual => ['>', '=']
  | .lessEqual => ['<', '=']
  | .dot => ['.']
  | .leftParen => ['(']
  | .rightParen => [')']
  | .leftBrace => ['\x7b']
  | .rightBrace => ['\x7d']
  | .colon => [':']
  | .semicolon => [';']
  | .comma => [',']

def label : Mark → String
  | .plus => "PLUS"
  | .equal => "EQUAL"
  | .equalEqual => "EQUAL_EQUAL"
  | .notEqual => "NOT_EQUAL"
  | .greater => "GREATER"
  | .less => "LESS"
  | .greaterEqual => "GREATER_EQUAL"
  | .lessEqual => "LESS_EQUAL"
  | .dot => "DOT"
  | .leftParen => "LEFT_PAREN"
  | .rightParen => "RIGHT_PAREN"
  | .leftBrace => "LEFT_BRACE"
  | .rightBrace => "RIGHT_BRACE"
  | .colon => "COLON"
  | .semicolon => "SEMICOLON"
  | .comma => "COMMA"

def joins : Mark → Bool
  | .plus | .equalEqual | .notEqual | .greater | .less | .greaterEqual | .lessEqual => true
  | _ => false

end Mark

inductive TokenKind where
  | keyword (word : Keyword)
  | string
  | number
  | identifier
  | mark (mark : Mark)
  | endOfInput
  deriving DecidableEq, Repr

namespace TokenKind

def label : TokenKind → String
  | .keyword w => w.spelling.toUpper
  | .string => "STRING"
  | .number => "NUMBER"
  | .identifier => "IDENTIFIER"
  | .mark m => m.label
  | .endOfInput => "EOF"

def all : List TokenKind :=
  Keyword.all.map .keyword ++ [.string, .number, .identifier] ++ Mark.all.map .mark ++ [.endOfInput]

def ofLabel? (label : String) : Option TokenKind := all.find? (·.label = label)

end TokenKind

/-- The literal is the text between the quotes of a string, the digits of a number, and else
absent. -/
structure Token where
  kind : TokenKind
  lexeme : String
  literal : Option String
  line : Nat
  deriving DecidableEq, Repr

namespace Token

def shown (t : Token) : String :=
  match t.kind, t.literal with
  | .string, some body => s!"{t.kind.label} {t.lexeme} -> {Text.quoted body} (line {t.line})"
  | _, _ => s!"{t.kind.label} {Text.quoted t.lexeme} (line {t.line})"

def endAt (line : Nat) : Token := ⟨.endOfInput, "", none, line⟩

end Token
end Stepwise
