import Stepwise.Proofs.Binary64.Plain
import Stepwise.Proofs.Expr.Outcome
import Stepwise.Proofs.Grammar.Joined
import Stepwise.Proofs.Grammar.Numbers

/-! Expressions as text. What is read from a text is a chain of operands that associates to the left,
and the text of such a chain is cut into its tokens again: no operand runs into what stands behind it,
and without parentheses the operators associate as they did. -/
namespace Stepwise
open Assembly Lexer Text
open Grammar (Leaf Operator)

/-- A name of a variable or a property: no keyword. -/
abbrev Named (word : String) : Prop := Lexeme .identifier word.toList

namespace Expr

inductive IsOperand : Expr → Prop where
  | text (value : String) (line : Option Nat) : IsOperand (.text value line)
  | number {x : Binary64} (unsigned : x.Unsigned) (line : Option Nat) : IsOperand (.number x line)
  | name {word : String} (named : Named word) (line : Option Nat) : IsOperand (.name word line)
  | property {word part : String} (named : Named word) (partNamed : Named part)
      (line line' : Option Nat) : IsOperand (.property (.name word line) part line')
  | result {id : Int} {part : Option String} (natural : 0 ≤ id) (short : Short id)
      (partNamed : ∀ word ∈ part, Named word) (line : Option Nat) : IsOperand (.result id part line)

/-- Operands in a row. Each operator has all that stands before it on its left. -/
inductive Regular : Expr → Prop where
  | operand {e : Expr} (single : IsOperand e) : Regular e
  | binary {left right : Expr} {operator : String} (first : Regular left)
      (known : operator ∈ binaryOperators) (last : IsOperand right) (line : Option Nat) :
      Regular (.binary left operator right line)

theorem IsOperand.nodes {e : Expr} (single : e.IsOperand) : ∀ d ∈ e.postorder, d.Regular := by
  have itself := Regular.operand single
  cases single with
  | property named partNamed line line' =>
    simpa [postorder] using ⟨Regular.operand (.name named line), itself⟩
  | _ => simpa [postorder] using itself

theorem Regular.nodes {e : Expr} (regular : e.Regular) : ∀ d ∈ e.postorder, d.Regular := by
  induction regular with
  | operand single => exact single.nodes
  | binary first known last line ih =>
    intro d inside
    simp only [postorder, List.mem_append, List.mem_singleton] at inside
    rcases inside with (before | behind) | rfl
    · exact ih d before
    · exact last.nodes d behind
    · exact .binary first known last line

/-- Without a quote in a string, and without an infinite number. -/
def Printable : Expr → Prop
  | .text value _ => '"' ∉ value.toList
  | .number x _ => ∃ negative a, x = .finite negative a
  | .binary left _ right _ => left.Printable ∧ right.Printable
  | .property object _ _ => object.Printable
  | _ => True

end Expr

theorem Named.begins {word : String} (named : Named word) :
    ∃ first more, word.toList = first :: more ∧ isDigit first = false := by
  have lexeme : Lexeme .identifier word.toList := named
  generalize word.toList = s at lexeme
  cases lexeme with
  | identifier first more letter => exact ⟨first, more, rfl, (letterApart letter).2.2⟩

/-! What is read is regular. -/

namespace Grammar
open Stepwise.Expr

theorem leafNamed {word : Leaf .identifier} (written : word.val.Written) : Named word.val.lexeme := by
  have lexeme := written.lexeme
  rwa [word.2] at lexeme

theorem Primary.treeOperand {d : Primary} (fits : Fits d.tokens) (written : ∀ t ∈ d.tokens, t.Written) :
    d.tree.IsOperand := by
  cases d with
  | text body => exact .text _ _
  | number digits => exact .number (Binary64.ofDecimalUnsigned _) _
  | name word part =>
    have named := leafNamed (written word.val (by simp [Primary.tokens]))
    cases part with
    | none => exact .name named _
    | some part =>
      have partNamed := leafNamed
        (written part.name.val (by simp [Primary.tokens, partTokens, Part.tokens]))
      exact .property named partNamed _ _
  | result word digits part =>
    have numbered : StepNumbered (word.val :: digits.val :: partTokens part) digits.val :=
      ⟨digits.2, word, (List.prefix_append [word.val, digits.val] _).isInfix⟩
    refine .result (Int.natCast_nonneg _) (shortDigits (fits.plain _ numbered) (fits.short _ numbered))
      (fun name among => ?_) _
    obtain ⟨part, rfl, rfl⟩ := Option.map_eq_some_iff.mp among
    exact leafNamed (written part.name.val (by simp [Primary.tokens, partTokens, Part.tokens]))

theorem linkedRegular {first : Primary} {links : List (Operator × Primary)}
    (fits : Fits (first.tokens ++ linkTokens links))
    (written : ∀ t ∈ first.tokens ++ linkTokens links, t.Written) :
    (linked first.tree links).Regular := by
  induction links using List.reverseRecOn with
  | nil =>
    simp only [linkTokens, List.flatMap_nil, List.append_nil] at fits written
    exact .operand (Primary.treeOperand fits written)
  | append_singleton links link ih =>
    rw [linkTokensLast, ← List.append_assoc] at fits written
    have front : first.tokens ++ linkTokens links <:+:
        first.tokens ++ linkTokens links ++ link.1.val :: link.2.tokens :=
      (List.prefix_append _ _).isInfix
    have behind : link.2.tokens <:+: first.tokens ++ linkTokens links ++ link.1.val :: link.2.tokens :=
      ((List.suffix_cons _ _).trans (List.suffix_append _ _)).isInfix
    have before := ih (fits.within front) fun t inside => written t (front.subset inside)
    have last := Primary.treeOperand (fits.within behind) fun t inside =>
      written t (behind.subset inside)
    rw [linkedLast]
    exact .binary before (operatorSpelled (written _ (by simp))) last _

end Grammar

theorem parseRegular {source : String} {ts : List Token} {p : Program}
    (tokenized : tokenize source = .ok ts) (read : parse ts = .ok p) :
    ∀ e ∈ p.expressions, e.Regular := by
  intro e inside
  obtain ⟨fits, chained⟩ := parseChained (tokenizeSpelled tokenized) read
  obtain ⟨chain, rfl, part⟩ := chained e inside
  exact Grammar.linkedRegular (fits.within part) fun t among =>
    writtenBeforeEnd tokenized t (part.subset among)

/-! Texts of expressions. -/

def Token.of (kind : TokenKind) (text : String) : Token := ⟨kind, text, literal? kind text.toList, 1⟩

theorem Token.ofWritten {kind : TokenKind} {text : String} (lexeme : Lexeme kind text.toList) :
    (Token.of kind text).Written := ⟨lexeme, rfl⟩

theorem Assembly.Fits.cons {t : Token} {ts : List Token}
    (other : t.kind ≠ .keyword .step ∧ t.kind ≠ .number) (h : Fits ts) : Fits (t :: ts) := by
  have behind : ∀ a, StepNumbered (t :: ts) a → StepNumbered ts a := by
    rintro a ⟨number, word, inside⟩
    rcases List.infix_cons_iff.mp inside with first | later
    · obtain ⟨rfl, -⟩ := List.cons_prefix_cons.mp first
      exact absurd word.2 other.1
    · exact ⟨number, word, later⟩
  refine ⟨fun a inside number => ?_, fun a at_ => h.plain a (behind a at_),
    fun a at_ => h.short a (behind a at_)⟩
  rcases List.mem_cons.mp inside with rfl | later
  · exact absurd number other.2
  · exact h.spelled a later number

/- The text of an expression, and the tokens that it is cut into in front of layout. -/
structure Spelled (e : Expr) (tokens : List Token) (text : String) : Prop where
  shown : e.render? = some text
  written : ∀ t ∈ tokens, t.Written
  fits : Fits tokens
  cuts : ∀ {ts : List Token} {rest : List Char}, (∀ c ∈ rest.head?, isLayout c = true) →
    CutInto ts rest → CutInto (tokens ++ ts) (text.toList ++ rest)

namespace Expr
open Grammar

theorem spelledSingle {e : Expr} {kind : TokenKind} {text : String} (shown : e.render? = some text)
    (lexeme : Lexeme kind text.toList) : Spelled e [Token.of kind text] text where
  shown := shown
  written := by simpa using Token.ofWritten lexeme
  fits := by
    have alone : ∀ a, ¬ StepNumbered [Token.of kind text] a := by
      rintro a ⟨-, word, inside⟩
      exact absurd inside.length_le (by simp)
    refine ⟨fun a inside number => ?_, fun a at_ => absurd at_ (alone a),
      fun a at_ => absurd at_ (alone a)⟩
    obtain rfl := List.mem_singleton.mp inside
    change kind = .number at number
    subst number
    cases lexeme with
    | number _ spelled => exact spelled
  cuts apart behind := .apart (Token.ofWritten lexeme) apart behind

def dotToken : Token := .of (.mark .dot) "."

theorem dotWritten : dotToken.Written := Token.ofWritten (.mark .dot)

theorem spelledProperty {word part : String} (named : Named word) (partNamed : Named part)
    (line line' : Option Nat) : Spelled (.property (.name word line) part line')
      [.of .identifier word, dotToken, .of .identifier part] (word ++ "." ++ part) where
  shown := rfl
  written := by
    simp [Token.ofWritten named, Token.ofWritten partNamed, dotWritten]
  fits := by
    have last := (spelledSingle (e := .name part line) rfl partNamed).fits
    exact .cons (by simp [Token.of]) (.cons (by decide) last)
  cuts apart behind := by
    have shape (rest : List Char) : (word ++ "." ++ part).toList ++ rest =
        word.toList ++ '.' :: (part.toList ++ rest) := by simp
    rw [shape]
    exact .named (Token.ofWritten named) rfl
      (.dot dotWritten rfl (.apart (Token.ofWritten partNamed) apart behind))

def stepToken : Token := .of (.keyword .step) "step"

theorem stepWritten : stepToken.Written := Token.ofWritten (.keyword .step)

def digitsToken (n : Nat) : Token := .of .number (toString (Int.ofNat n))

theorem digitsWritten (n : Nat) : (digitsToken n).Written := by
  refine Token.ofWritten ?_
  rw [Decimal.spelledNat]
  exact .number _ (.digits _ (Decimal.digitsSome n) fun c => Decimal.digitsPlain)

theorem digitsIsPlain (n : Nat) : (digitsToken n).IsPlain := by
  intro c inside
  change c ∈ (toString (Int.ofNat n)).toList at inside
  rw [Decimal.spelledNat] at inside
  exact Decimal.digitsPlain inside

def nameTokens (part : Option String) : List Token :=
  part.elim [] fun word => [dotToken, .of .identifier word]

theorem referenceFits {n : Nat} {part : Option String} (short : Short (Int.ofNat n)) :
    Fits (stepToken :: digitsToken n :: nameTokens part) := by
  have only : ∀ t ∈ stepToken :: digitsToken n :: nameTokens part, t.kind = .number →
      t = digitsToken n := by
    intro t inside number
    rcases List.mem_cons.mp inside with rfl | later
    · cases number
    rcases List.mem_cons.mp later with rfl | named
    · rfl
    cases part with
    | none => cases named
    | some word =>
      simp only [nameTokens, Option.elim_some, List.mem_cons, List.not_mem_nil, or_false] at named
      rcases named with rfl | rfl <;> cases number
  have plain := digitsIsPlain n
  refine ⟨fun t inside number => ?_, fun t numbered => ?_, fun t numbered => ?_⟩
  · rw [only t inside number]
    exact .digits _ (by rw [digitsToken, Token.of, Decimal.spelledNat]; exact Decimal.digitsSome n) plain
  · obtain ⟨number, word, inside⟩ := numbered
    rwa [only t (inside.subset (by simp)) number]
  · obtain ⟨number, word, inside⟩ := numbered
    rw [only t (inside.subset (by simp)) number]
    change (toString (Int.ofNat n)).toList.length ≤ _
    rw [Decimal.spelledNat]
    exact short

theorem spelledReference {n : Nat} {part : Option String} (short : Short (Int.ofNat n))
    (partNamed : ∀ word ∈ part, Named word) (line : Option Nat) :
    ∃ text, Spelled (.result (Int.ofNat n) part line) (stepToken :: digitsToken n :: nameTokens part)
      text := by
  cases part with
  | none =>
    refine ⟨"step " ++ toString (Int.ofNat n), by simp [render?], ?_, referenceFits short, ?_⟩
    · simp [nameTokens, stepWritten, digitsWritten]
    · intro ts rest apart behind
      have shape : ("step " ++ toString (Int.ofNat n)).toList ++ rest =
          "step".toList ++ ' ' :: ((toString (Int.ofNat n)).toList ++ rest) := by simp
      rw [shape]
      exact .apart stepWritten (by simp [isLayout])
        (.layout rfl (.apart (digitsWritten n) apart behind))
  | some word =>
    have named := partNamed word rfl
    obtain ⟨first, more, spelling, other⟩ := named.begins
    refine ⟨"step " ++ toString (Int.ofNat n) ++ ("." ++ word), ?_, ?_, referenceFits short, ?_⟩
    · have some : word ≠ "" := by
        rintro rfl
        cases spelling
      simp [render?, some]
    · simp [nameTokens, stepWritten, digitsWritten, dotWritten, Token.ofWritten named]
    · intro ts rest apart behind
      have shape : ("step " ++ toString (Int.ofNat n) ++ ("." ++ word)).toList ++ rest =
          "step".toList ++ ' ' :: ((toString (Int.ofNat n)).toList ++ '.' :: (word.toList ++ rest)) := by
        simp
      have further : CutInto (dotToken :: .of .identifier word :: ts) ('.' :: (word.toList ++ rest)) :=
        .dot dotWritten rfl (.apart (Token.ofWritten named) apart behind)
      rw [shape]
      refine .apart stepWritten (by simp [isLayout]) (.layout rfl ?_)
      rw [spelling] at further ⊢
      exact .plain (digitsWritten n) rfl (digitsIsPlain n) other further

theorem spelledOperand {e : Expr} (single : e.IsOperand) (printable : e.Printable) :
    ∃ (d : Primary) (text : String), d.tree.bare = e.bare ∧ Spelled e d.tokens text := by
  cases single with
  | text value line =>
    have lexeme : Lexeme .string ("\"" ++ value ++ "\"").toList := by
      simpa using Lexeme.string '"' value.toList rfl printable
    refine ⟨.text ⟨.of .string ("\"" ++ value ++ "\""), rfl⟩, _, ?_, spelledSingle rfl lexeme⟩
    simp [Primary.tree, bare, textBody, Token.of, literal?]
  | number unsigned line =>
    obtain ⟨negative, a, rfl⟩ := printable
    obtain rfl : negative = false := by
      rcases unsigned with ⟨b, same⟩ | same <;> cases same
      rfl
    obtain ⟨shape, spelled⟩ := Binary64.plainPositive a
    refine ⟨.number ⟨.of .number (Binary64.finite false a).plain, rfl⟩, _, ?_,
      spelledSingle rfl (.number _ spelled)⟩
    simp only [Primary.tree, bare, Token.of, shape]
    rw [a.shortestRead]
  | name named line =>
    exact ⟨.name ⟨.of .identifier _, rfl⟩ none, _, rfl, spelledSingle rfl named⟩
  | property named partNamed line line' =>
    exact ⟨.name ⟨.of .identifier _, rfl⟩ (some ⟨⟨dotToken, rfl⟩, ⟨.of .identifier _, rfl⟩⟩), _, rfl,
      spelledProperty named partNamed line line'⟩
  | @result id part natural short partNamed line =>
    obtain ⟨n, rfl⟩ := Int.eq_ofNat_of_zero_le natural
    obtain ⟨text, spelled⟩ := spelledReference short partNamed line
    have value : stepId ⟨digitsToken n, rfl⟩ = n := by
      simp only [stepId, digitsToken, Token.of, Decimal.spelledNat, Decimal.digitsValue]
    refine ⟨.result ⟨stepToken, rfl⟩ ⟨digitsToken n, rfl⟩
      (part.map fun word => ⟨⟨dotToken, rfl⟩, ⟨.of .identifier word, rfl⟩⟩), text, ?_, ?_⟩
    · simp only [Primary.tree, bare, value, Option.map_map]
      cases part <;> rfl
    · cases part <;> exact spelled

theorem operatorMark {operator : String} (known : operator ∈ binaryOperators) :
    ∃ m : Mark, m.joins = true ∧ operator.toList = m.spelling := by
  simp only [binaryOperators, List.mem_cons, List.not_mem_nil, or_false] at known
  rcases known with rfl | rfl | rfl | rfl | rfl | rfl | rfl
  · exact ⟨.plus, rfl, rfl⟩
  · exact ⟨.equalEqual, rfl, rfl⟩
  · exact ⟨.notEqual, rfl, rfl⟩
  · exact ⟨.greater, rfl, rfl⟩
  · exact ⟨.less, rfl, rfl⟩
  · exact ⟨.greaterEqual, rfl, rfl⟩
  · exact ⟨.lessEqual, rfl, rfl⟩

theorem operatorWritten {operator : String} (known : operator ∈ binaryOperators) :
    ∃ op : Operator, op.val.lexeme = operator ∧ op.val.Written := by
  obtain ⟨m, joins, spelling⟩ := operatorMark known
  refine ⟨⟨.of (.mark m) operator, m, rfl, joins⟩, rfl, Token.ofWritten ?_⟩
  rw [spelling]
  exact .mark m

theorem operatorApart (op : Operator) :
    op.val.kind ≠ .keyword .step ∧ op.val.kind ≠ .number := by
  obtain ⟨m, kind, -⟩ := op.2
  simp [kind]

/- The operator and the operand behind it stand between blanks. -/
theorem spelledLinked {left right : Expr} {ts us : List Token} {a b : String} {op : Operator}
    (written : op.val.Written) (first : Spelled left ts a) (last : Spelled right us b)
    (line : Option Nat) : Spelled (.binary left op.val.lexeme right line) (ts ++ op.val :: us)
      (a ++ " " ++ op.val.lexeme ++ " " ++ b) where
  shown := by simp [render?, first.shown, last.shown]
  written := by
    simpa [written, or_imp, forall_and] using ⟨first.written, last.written⟩
  fits := by
    refine first.fits.append (.cons (operatorApart op) last.fits) ?_
    rintro t ⟨⟩
    exact (operatorApart op).2
  cuts {further rest} apart behind := by
    have shape : (a ++ " " ++ op.val.lexeme ++ " " ++ b).toList ++ rest =
        a.toList ++ ' ' :: (op.val.lexeme.toList ++ ' ' :: (b.toList ++ rest)) := by simp
    rw [shape, List.append_assoc, List.cons_append]
    refine first.cuts (by simp [isLayout]) (.layout rfl ?_)
    exact .apart written (by simp [isLayout]) (.layout rfl (last.cuts apart behind))

theorem spelledChain {e : Expr} (regular : e.Regular) (printable : e.Printable) :
    ∃ (chain : Chain) (text : String), chain.tree.bare = e.bare ∧ Spelled e chain.tokens text := by
  induction regular with
  | operand single =>
    obtain ⟨d, text, same, spelled⟩ := spelledOperand single printable
    refine ⟨⟨d, []⟩, text, same, ?_⟩
    simpa [Chain.tokens, linkTokens] using spelled
  | @binary left right operator first known last line ih =>
    obtain ⟨⟨head, links⟩, before, sameLeft, spelledLeft⟩ := ih printable.1
    obtain ⟨d, behind, sameRight, spelledRight⟩ := spelledOperand last printable.2
    obtain ⟨op, rfl, written⟩ := operatorWritten known
    have tokens : (Chain.mk head (links ++ [(op, d)])).tokens =
        (Chain.mk head links).tokens ++ op.val :: d.tokens := by
      simp [Chain.tokens, linkTokensLast]
    refine ⟨⟨head, links ++ [(op, d)]⟩, _, ?_,
      tokens ▸ spelledLinked written spelledLeft spelledRight line⟩
    simp only [Chain.tree, linkedLast, bare] at sameLeft ⊢
    rw [sameLeft, sameRight]

end Expr

/- A text that is cut into the tokens of a derivation is read to its tree, but for the lines. -/
theorem parseCut {d : Grammar.Source} {text : String} (fits : Fits d.tokens)
    (written : ∀ t ∈ d.tokens, t.Written) (cut : CutInto d.tokens text.toList) :
    ∃ ts p, tokenize text = .ok ts ∧ parse ts = .ok p ∧ d.tree.same p = true := by
  obtain ⟨ts, tokenized, same⟩ := tokenizeCut cut written 1
  have front := (beforeEndWritten written 1).symm
  have alike : ReadAlike (parse (d.tokens ++ [Token.endAt 1])) (parse ts) := by
    refine outcomesAlike (g := fun _ => 0) ?_
    rw [← parseRelined _ (by simp), ← parseRelined _ (scannedBeforeEnd tokenized).1, same]
  rw [derivedParse fits front] at alike
  generalize outcome : parse ts = read at alike
  cases alike with
  | program same => exact ⟨ts, _, tokenized, outcome, same⟩

/- The declaration of one variable, and nothing else, with this value. -/
def Program.Declares (p : Program) (e : Expr) : Prop :=
  ∃ d, p.declarations = [d] ∧ p.workflows = [] ∧ d.keyword = "let" ∧ d.name = "it" ∧
    d.value.bare = e.bare

theorem sameDeclares {p : Program} {e : Expr} {line : Option Nat}
    (same : (Program.mk [⟨"let", "it", e, line⟩] [] line).same p = true) : p.Declares e := by
  obtain ⟨declarations, workflows, last⟩ := p
  match declarations, workflows with
  | [d], [] =>
    have parts : ("let" = d.keyword ∧ "it" = d.name) ∧ e.bare = d.value.bare := by
      simpa [Program.same, Declaration.same] using same
    exact ⟨d, rfl, rfl, parts.1.1.symm, parts.1.2.symm, parts.2.symm⟩
  | [], _ | _ :: _ :: _, _ | _, _ :: _ => simp [Program.same] at same

def letToken : Token := .of (.keyword .letWord) "let"

def itToken : Token := .of .identifier "it"

def equalToken : Token := .of (.mark .equal) "="

/- The declaration of one variable with this value. -/
def letSource (chain : Grammar.Chain) : Grammar.Source :=
  [.declaration ⟨⟨letToken, .letWord, rfl, rfl⟩, ⟨itToken, rfl⟩, ⟨equalToken, rfl⟩, chain⟩]

theorem letTokens (chain : Grammar.Chain) :
    (letSource chain).tokens = [letToken, itToken, equalToken] ++ chain.tokens := by
  simp [letSource, Grammar.Source.tokens, Grammar.Item.tokens, Grammar.Declaration.tokens]

theorem letWritten : letToken.Written ∧ itToken.Written ∧ equalToken.Written := by
  have name : Named "it" :=
    .identifier 'i' ['t'] rfl (List.all_eq_true.mp rfl) fun w => by cases w <;> decide
  exact ⟨Token.ofWritten (.keyword .letWord), Token.ofWritten name, Token.ofWritten (.mark .equal)⟩

theorem letCut {ts : List Token} {text : String} (value : CutInto ts text.toList) :
    CutInto ([letToken, itToken, equalToken] ++ ts) ("let it = " ++ text).toList := by
  obtain ⟨word, name, equal⟩ := letWritten
  have shape : ("let it = " ++ text).toList =
      "let".toList ++ ' ' :: ("it".toList ++ ' ' :: ("=".toList ++ ' ' :: text.toList)) := by simp
  rw [shape]
  refine .apart word (by simp [isLayout]) (.layout rfl ?_)
  refine .apart name (by simp [isLayout]) (.layout rfl ?_)
  exact .apart equal (by simp [isLayout]) (.layout rfl value)

theorem regularParsed {e : Expr} (regular : e.Regular) (printable : e.Printable) :
    ∃ text ts p, e.render? = some text ∧ tokenize ("let it = " ++ text) = .ok ts ∧
      parse ts = .ok p ∧ p.Declares e := by
  obtain ⟨chain, text, sameValue, spelled⟩ := Expr.spelledChain regular printable
  have value : CutInto chain.tokens text.toList := by
    have whole := @spelled.cuts [] [] (by simp) .nothing
    simpa using whole
  have tokens := letTokens chain
  have fits : Fits (letSource chain).tokens := by
    rw [tokens]
    exact .cons (by decide) (.cons (by decide) (.cons (by decide) spelled.fits))
  have written : ∀ t ∈ (letSource chain).tokens, t.Written := by
    rw [tokens]
    simpa [letWritten] using spelled.written
  obtain ⟨ts, p, tokenized, read, same⟩ := parseCut fits written (tokens ▸ letCut value)
  obtain ⟨d, one, other, keyword, name, again⟩ := sameDeclares same
  exact ⟨text, ts, p, spelled.shown, tokenized, read, d, one, other, keyword, name,
    again.trans sameValue⟩

/- Reading and printing are inverse on regular expressions: what is read from a text is regular down
to its last node, and the text of a regular expression is read as that expression, but for its lines. -/
theorem regularReadAgain :
    (∀ source ts p, tokenize source = .ok ts → parse ts = .ok p →
      ∀ e ∈ p.expressions, e.Regular ∧ ∀ d ∈ e.postorder, d.Regular) ∧
    ∀ e : Expr, e.Regular → e.Printable → ∃ text ts p, e.render? = some text ∧
      tokenize ("let it = " ++ text) = .ok ts ∧ parse ts = .ok p ∧ p.Declares e :=
  ⟨fun _ _ _ tokenized read e inside =>
    have regular := parseRegular tokenized read e inside
    ⟨regular, regular.nodes⟩, fun _ => regularParsed⟩

/- A string over two lines, a property of a result, and a comparison that takes the sum on its left. -/
def mixedChain : Expr :=
  .binary (.binary (.text "'\n" none) "+" (.result 12 (some "status") none) none) "<=" (.name "x" none)
    none

theorem mixedChainReadAgain :
    (Expr.name "b" (some 1)).Regular ∧ mixedChain.Regular ∧ mixedChain.Printable ∧
      ∃ text ts p, mixedChain.render? = some text ∧ tokenize ("let it = " ++ text) = .ok ts ∧
        parse ts = .ok p ∧ p.Declares mixedChain := by
  have tokenized : tokenize nameText = .ok nameTokens := by cbv
  have read : parse nameTokens = .ok nameProgram := rfl
  have status : Named "status" :=
    .identifier 's' "tatus".toList rfl (List.all_eq_true.mp rfl) fun w => by cases w <;> decide
  have name : Named "x" := .identifier 'x' [] rfl (by simp) fun w => by cases w <;> decide
  have short : Short 12 := by
    unfold Short
    decide
  have regular : mixedChain.Regular := by
    refine .binary (.binary (.operand (.text _ _)) (by decide) (.result (by decide) short ?_ _) _)
      (by decide) (.name name _) _
    rintro _ ⟨⟩
    exact status
  have unquoted : '"' ∉ "'\n".toList := by decide
  have printable : mixedChain.Printable := ⟨⟨unquoted, trivial⟩, trivial⟩
  have first := regularReadAgain.1 _ _ _ tokenized read (.name "b" (some 1))
    (List.mem_singleton.mpr rfl)
  exact ⟨first.1, regular, printable, regularReadAgain.2 mixedChain regular printable⟩

end Stepwise
