import Stepwise.Proofs.Token.Number

/-! The grammar of programs. A derivation has one constructor for each production and one leaf for
each token; it spells a list of tokens and stands for a program.

    Program      := (VariableDecl | Workflow)*
    Workflow     := "workflow" STRING "{" Step* "}"
    Step         := "step" NUMBER ":" (Conditional | Command)
    Command      := NAME [ "(" (Expr ("," Expr)*)? ")" ]
    Conditional  := "if" "(" Expr ")" "{" Step* "}" [ "else" "{" Step* "}" ]
    VariableDecl := ("let" | "var" | "const") IDENT "=" Expr
    Expr         := Primary (BINOP Primary)*
    Primary      := STRING | NUMBER | IDENT [ "." IDENT ] | "step" NUMBER [ "." IDENT ]
-/
namespace Stepwise.Grammar

/- A token of one kind, and tokens of one of several kinds. -/
abbrev Leaf (kind : TokenKind) := { t : Token // t.kind = kind }

abbrev Operator := { t : Token // ∃ m : Mark, t.kind = .mark m ∧ m.joins = true }

abbrev CommandName :=
  { t : Token // t.kind = .identifier ∨ ∃ w : Keyword, t.kind = .keyword w ∧ w.namesCommand = true }

abbrev DeclarationWord := { t : Token // ∃ w : Keyword, t.kind = .keyword w ∧ w.declares = true }

structure Part where
  dot : Leaf (.mark .dot)
  name : Leaf .identifier

inductive Primary where
  | text (body : Leaf .string)
  | number (digits : Leaf .number)
  | name (word : Leaf .identifier) (part : Option Part)
  | result (word : Leaf (.keyword .step)) (digits : Leaf .number) (part : Option Part)

structure Chain where
  first : Primary
  more : List (Operator × Primary)

structure Listing where
  first : Chain
  more : List (Leaf (.mark .comma) × Chain)

structure Arguments where
  left : Leaf (.mark .leftParen)
  listing : Option Listing
  right : Leaf (.mark .rightParen)

structure Command where
  name : CommandName
  arguments : Option Arguments

structure Header where
  word : Leaf (.keyword .step)
  number : Leaf .number
  colon : Leaf (.mark .colon)

structure Test where
  word : Leaf (.keyword .ifWord)
  left : Leaf (.mark .leftParen)
  condition : Chain
  right : Leaf (.mark .rightParen)

inductive Step where
  | command (header : Header) (content : Command)
  | ifOnly (header : Header) (test : Test)
      (left : Leaf (.mark .leftBrace)) (body : List Step) (right : Leaf (.mark .rightBrace))
  | ifElse (header : Header) (test : Test)
      (left : Leaf (.mark .leftBrace)) (body : List Step) (right : Leaf (.mark .rightBrace))
      (word : Leaf (.keyword .elseWord))
      (left' : Leaf (.mark .leftBrace)) (other : List Step) (right' : Leaf (.mark .rightBrace))

structure Declaration where
  word : DeclarationWord
  name : Leaf .identifier
  equal : Leaf (.mark .equal)
  value : Chain

structure Workflow where
  word : Leaf (.keyword .workflow)
  name : Leaf .string
  left : Leaf (.mark .leftBrace)
  steps : List Step
  right : Leaf (.mark .rightBrace)

inductive Item where
  | declaration (d : Declaration)
  | workflow (w : Workflow)

/- A derivation from the start symbol. -/
abbrev Source := List Item

/-! The tokens that a derivation spells. -/

def Part.tokens (part : Part) : List Token := [part.dot.val, part.name.val]

def partTokens (part : Option Part) : List Token := part.elim [] Part.tokens

def Primary.tokens : Primary → List Token
  | .text body => [body.val]
  | .number digits => [digits.val]
  | .name word part => word.val :: partTokens part
  | .result word digits part => word.val :: digits.val :: partTokens part

def linkTokens (links : List (Operator × Primary)) : List Token :=
  links.flatMap fun link => link.1.val :: link.2.tokens

def Chain.tokens (chain : Chain) : List Token := chain.first.tokens ++ linkTokens chain.more

def restTokens (rest : List (Leaf (.mark .comma) × Chain)) : List Token :=
  rest.flatMap fun next => next.1.val :: next.2.tokens

def Listing.tokens (listing : Listing) : List Token :=
  listing.first.tokens ++ restTokens listing.more

def Arguments.tokens (arguments : Arguments) : List Token :=
  arguments.left.val :: arguments.listing.elim [] Listing.tokens ++ [arguments.right.val]

def Command.tokens (command : Command) : List Token :=
  command.name.val :: command.arguments.elim [] Arguments.tokens

def Header.tokens (header : Header) : List Token :=
  [header.word.val, header.number.val, header.colon.val]

def Test.tokens (test : Test) : List Token :=
  test.word.val :: test.left.val :: test.condition.tokens ++ [test.right.val]

mutual

def Step.tokens : Step → List Token
  | .command header content => header.tokens ++ content.tokens
  | .ifOnly header test left body right =>
      header.tokens ++ test.tokens ++ left.val :: (stepTokens body ++ [right.val])
  | .ifElse header test left body right word left' other right' =>
      header.tokens ++ test.tokens ++ left.val :: (stepTokens body ++ right.val ::
        word.val :: left'.val :: (stepTokens other ++ [right'.val]))

def stepTokens : List Step → List Token
  | [] => []
  | step :: rest => step.tokens ++ stepTokens rest

end

def Declaration.tokens (d : Declaration) : List Token :=
  d.word.val :: d.name.val :: d.equal.val :: d.value.tokens

def Workflow.tokens (w : Workflow) : List Token :=
  w.word.val :: w.name.val :: w.left.val :: (stepTokens w.steps ++ [w.right.val])

def Item.tokens : Item → List Token
  | .declaration d => d.tokens
  | .workflow w => w.tokens

def Source.tokens (source : Source) : List Token := source.flatMap Item.tokens

/-! The program that a derivation stands for. -/

/- The decimal value of a step number. -/
def stepId (number : Leaf .number) : Int := (Decimal.ofDigitChars number.val.lexeme.toList : Nat)

/- The text between the quotes. -/
def textBody (body : Leaf .string) : String := body.val.literal.getD ""

def Primary.tree : Primary → Expr
  | .text body => .text (textBody body) (some body.val.line)
  | .number digits =>
      .number (Binary64.ofDecimal (Numeral.spelled digits.val.lexeme.toList)) (some digits.val.line)
  | .name word none => .name word.val.lexeme (some word.val.line)
  | .name word (some part) =>
      .property (.name word.val.lexeme (some word.val.line)) part.name.val.lexeme
        (some word.val.line)
  | .result word digits part =>
      .result (stepId digits) (part.map (·.name.val.lexeme)) (some word.val.line)

/- One level of precedence: each operator takes all that stands before it as its left operand. -/
def linked (left : Expr) (links : List (Operator × Primary)) : Expr :=
  links.foldl (fun left link =>
    .binary left link.1.val.lexeme link.2.tree (some link.1.val.line)) left

def Chain.tree (chain : Chain) : Expr := linked chain.first.tree chain.more

def restTrees (rest : List (Leaf (.mark .comma) × Chain)) : List Expr := rest.map (·.2.tree)

def Listing.trees (listing : Listing) : List Expr := listing.first.tree :: restTrees listing.more

def Arguments.trees (arguments : Arguments) : List Expr := arguments.listing.elim [] Listing.trees

def Command.trees (command : Command) : List Expr := command.arguments.elim [] Arguments.trees

def Header.id (header : Header) : Int := stepId header.number

def Header.line (header : Header) : Option Nat := some header.word.val.line

mutual

def Step.tree : Step → Stepwise.Step
  | .command header content =>
      .command header.id content.name.val.lexeme content.trees header.line
        (some content.name.val.line)
  | .ifOnly header test _ body _ =>
      .ifOnly header.id test.condition.tree (stepTrees body) header.line (some test.word.val.line)
  | .ifElse header test _ body _ _ _ other _ =>
      .ifElse header.id test.condition.tree (stepTrees body) (stepTrees other) header.line
        (some test.word.val.line)

def stepTrees : List Step → List Stepwise.Step
  | [] => []
  | step :: rest => step.tree :: stepTrees rest

end

/- The keyword that opens a declaration, as text. -/
def DeclarationWord.spelling (word : DeclarationWord) : String :=
  match word.val.kind with
  | .keyword w => w.spelling
  | _ => ""

def Declaration.tree (d : Declaration) : Stepwise.Declaration :=
  ⟨DeclarationWord.spelling d.word, d.name.val.lexeme, d.value.tree, some d.word.val.line⟩

def Workflow.tree (w : Workflow) : Stepwise.Workflow :=
  ⟨textBody w.name, stepTrees w.steps, some w.word.val.line⟩

def Item.declaration? : Item → Option Stepwise.Declaration
  | .declaration d => some d.tree
  | .workflow _ => none

def Item.workflow? : Item → Option Stepwise.Workflow
  | .declaration _ => none
  | .workflow w => some w.tree

/- Declarations and workflows apart, each in the order of the text. -/
def Source.tree (source : Source) : Program :=
  ⟨source.filterMap Item.declaration?, source.filterMap Item.workflow?, some 1⟩

end Stepwise.Grammar
