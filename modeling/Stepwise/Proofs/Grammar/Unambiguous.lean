import Stepwise.Proofs.Grammar.Derivation

/-! The grammar is unambiguous. Two derivations that spell the same tokens, each up to a token that
could not have continued it, are one and end at the same place. -/
namespace Stepwise.Grammar

variable {r q : List Token}

/- Kinds of tokens that continue a part of which a shorter form stands complete. -/
def goesOn : TokenKind → Bool
  | .mark .dot | .mark .leftParen | .keyword .elseWord => true
  | .mark m => m.joins
  | _ => false

/- What has been read is complete in front of these tokens. -/
def Ends (rest : List Token) : Prop := ∀ t ∈ rest.head?, goesOn t.kind = false

/- No property name follows. -/
def NoDot (rest : List Token) : Prop := ∀ t ∈ rest.head?, t.kind ≠ .mark .dot

theorem endsCons {t : Token} (h : goesOn t.kind = false) : Ends (t :: r) := by
  rintro _ ⟨⟩
  exact h

theorem Ends.noDot (h : Ends r) : NoDot r := by
  intro t first dot
  have ended := h t first
  rw [dot] at ended
  cases ended

theorem leafTaken {P : Token → Prop} {a b : Subtype P} (same : a.val :: r = b.val :: q) :
    a = b ∧ r = q := by
  rw [List.cons.injEq] at same
  exact ⟨Subtype.ext same.1, same.2⟩

theorem leavesApart {k l : TokenKind} {a : Leaf k} {b : Leaf l} (apart : k ≠ l) :
    a.val :: r ≠ b.val :: q := by
  intro same
  rw [List.cons.injEq] at same
  exact apart (a.2.symm.trans ((congrArg Token.kind same.1).trans b.2))

theorem noDotApart {a : Leaf (.mark .dot)} (h : NoDot r) : a.val :: q ≠ r := by
  rintro rfl
  exact h a.val rfl a.2

theorem partUnique {a b : Option Part} (ra : NoDot r) (qb : NoDot q)
    (same : partTokens a ++ r = partTokens b ++ q) : a = b ∧ r = q := by
  cases a with
  | none =>
    cases b with
    | none => exact ⟨rfl, same⟩
    | some part => exact absurd same.symm (noDotApart ra)
  | some part =>
    cases b with
    | none => exact absurd same (noDotApart qb)
    | some part' =>
      obtain ⟨dot, name⟩ := part
      obtain ⟨dot', name'⟩ := part'
      obtain ⟨rfl, behind⟩ := leafTaken same
      obtain ⟨rfl, rfl⟩ := leafTaken behind
      exact ⟨rfl, rfl⟩

theorem primaryUnique {a b : Primary} (ra : NoDot r) (qb : NoDot q)
    (same : a.tokens ++ r = b.tokens ++ q) : a = b ∧ r = q := by
  cases a with
  | text body =>
    cases b with
    | text body' =>
      obtain ⟨rfl, rfl⟩ := leafTaken same
      exact ⟨rfl, rfl⟩
    | number | name | result => exact absurd same (leavesApart nofun)
  | number digits =>
    cases b with
    | number digits' =>
      obtain ⟨rfl, rfl⟩ := leafTaken same
      exact ⟨rfl, rfl⟩
    | text | name | result => exact absurd same (leavesApart nofun)
  | name word part =>
    cases b with
    | name word' part' =>
      obtain ⟨rfl, behind⟩ := leafTaken same
      obtain ⟨rfl, rfl⟩ := partUnique ra qb behind
      exact ⟨rfl, rfl⟩
    | text | number | result => exact absurd same (leavesApart nofun)
  | result word digits part =>
    cases b with
    | result word' digits' part' =>
      obtain ⟨rfl, behind⟩ := leafTaken same
      obtain ⟨rfl, further⟩ := leafTaken behind
      obtain ⟨rfl, rfl⟩ := partUnique ra qb further
      exact ⟨rfl, rfl⟩
    | text | number | name => exact absurd same (leavesApart nofun)

theorem operatorGoesOn (op : Operator) : goesOn op.val.kind = true := by
  obtain ⟨t, m, kind, joins⟩ := op
  change goesOn t.kind = true
  rw [kind]
  cases m <;> first | rfl | cases joins

theorem operatorNoDot (op : Operator) : NoDot (op.val :: r) := by
  obtain ⟨t, m, kind, joins⟩ := op
  rintro _ ⟨⟩ dot
  rw [kind] at dot
  cases dot
  cases joins

theorem linksNoDot (links : List (Operator × Primary)) (ra : Ends r) :
    NoDot (linkTokens links ++ r) := by
  cases links with
  | nil => exact ra.noDot
  | cons link rest => exact operatorNoDot link.1

theorem linksUnique {a b : List (Operator × Primary)} (ra : Ends r) (qb : Ends q)
    (same : linkTokens a ++ r = linkTokens b ++ q) : a = b ∧ r = q := by
  induction a generalizing b with
  | nil =>
    cases b with
    | nil => exact ⟨rfl, same⟩
    | cons link rest =>
      have ended := ra link.1.val (by rw [show r = _ from same]; rfl)
      rw [operatorGoesOn] at ended
      cases ended
  | cons link rest ih =>
    cases b with
    | nil =>
      have ended := qb link.1.val (by rw [show q = _ from same.symm]; rfl)
      rw [operatorGoesOn] at ended
      cases ended
    | cons link' rest' =>
      obtain ⟨op, operand⟩ := link
      obtain ⟨op', operand'⟩ := link'
      simp only [linkTokens, List.flatMap_cons, List.cons_append, List.append_assoc] at same
      obtain ⟨rfl, behind⟩ := leafTaken same
      obtain ⟨rfl, further⟩ := primaryUnique (linksNoDot rest ra) (linksNoDot rest' qb) behind
      obtain ⟨rfl, rfl⟩ := ih further
      exact ⟨rfl, rfl⟩

theorem chainUnique {a b : Chain} (ra : Ends r) (qb : Ends q)
    (same : a.tokens ++ r = b.tokens ++ q) : a = b ∧ r = q := by
  obtain ⟨first, links⟩ := a
  obtain ⟨first', links'⟩ := b
  simp only [Chain.tokens, List.append_assoc] at same
  obtain ⟨rfl, behind⟩ := primaryUnique (linksNoDot links ra) (linksNoDot links' qb) same
  obtain ⟨rfl, rfl⟩ := linksUnique ra qb behind
  exact ⟨rfl, rfl⟩

theorem leafEnds {kind : TokenKind} (a : Leaf kind) (h : goesOn kind = false) :
    Ends (a.val :: r) := by
  rintro _ ⟨⟩
  rw [a.2, h]

theorem restEnds (rest : List (Leaf (.mark .comma) × Chain)) (right : Leaf (.mark .rightParen)) :
    Ends (restTokens rest ++ right.val :: r) := by
  cases rest with
  | nil => exact leafEnds right rfl
  | cons next rest => exact leafEnds next.1 rfl

theorem restUnique {a b : List (Leaf (.mark .comma) × Chain)} {right right' : Leaf (.mark .rightParen)}
    (same : restTokens a ++ right.val :: r = restTokens b ++ right'.val :: q) :
    a = b ∧ right = right' ∧ r = q := by
  induction a generalizing b with
  | nil =>
    cases b with
    | nil =>
      obtain ⟨rfl, rfl⟩ := leafTaken same
      exact ⟨rfl, rfl, rfl⟩
    | cons next rest => exact absurd same (leavesApart nofun)
  | cons next rest ih =>
    cases b with
    | nil => exact absurd same (leavesApart nofun)
    | cons next' rest' =>
      obtain ⟨comma, chain⟩ := next
      obtain ⟨comma', chain'⟩ := next'
      simp only [restTokens, List.flatMap_cons, List.cons_append, List.append_assoc] at same
      obtain ⟨rfl, behind⟩ := leafTaken same
      obtain ⟨rfl, further⟩ := chainUnique (restEnds rest right) (restEnds rest' right') behind
      obtain ⟨rfl, rfl, rfl⟩ := ih further
      exact ⟨rfl, rfl, rfl⟩

theorem Chain.start (chain : Chain) :
    ∃ t rest, chain.tokens = t :: rest ∧ t.kind ≠ .mark .rightParen := by
  obtain ⟨first, links⟩ := chain
  cases first with
  | text leaf => exact ⟨leaf.val, _, rfl, by rw [leaf.2]; nofun⟩
  | number leaf => exact ⟨leaf.val, _, rfl, by rw [leaf.2]; nofun⟩
  | name leaf part => exact ⟨leaf.val, _, rfl, by rw [leaf.2]; nofun⟩
  | result leaf digits part => exact ⟨leaf.val, _, rfl, by rw [leaf.2]; nofun⟩

theorem Listing.notEmpty {listing : Listing} {right : Leaf (.mark .rightParen)} :
    listing.tokens ++ r ≠ right.val :: q := by
  obtain ⟨t, rest, shape, other⟩ := listing.first.start
  intro same
  rw [tokens, shape, List.cons_append, List.cons_append, List.cons.injEq] at same
  exact other (by rw [same.1, right.2])

theorem listingUnique {a b : Option Listing} {right right' : Leaf (.mark .rightParen)}
    (same : a.elim [] Listing.tokens ++ right.val :: r = b.elim [] Listing.tokens ++ right'.val :: q) :
    a = b ∧ right = right' ∧ r = q := by
  cases a with
  | none =>
    cases b with
    | none =>
      obtain ⟨rfl, rfl⟩ := leafTaken same
      exact ⟨rfl, rfl, rfl⟩
    | some listing => exact absurd same.symm Listing.notEmpty
  | some listing =>
    cases b with
    | none => exact absurd same Listing.notEmpty
    | some listing' =>
      obtain ⟨first, rest⟩ := listing
      obtain ⟨first', rest'⟩ := listing'
      simp only [Option.elim_some, Listing.tokens, List.append_assoc] at same
      obtain ⟨rfl, behind⟩ := chainUnique (restEnds rest right) (restEnds rest' right') same
      obtain ⟨rfl, rfl, rfl⟩ := restUnique behind
      exact ⟨rfl, rfl, rfl⟩

theorem argumentsApart {arguments : Arguments} (h : Ends r) : arguments.tokens ++ q ≠ r := by
  rintro rfl
  have ended := h arguments.left.val rfl
  rw [arguments.left.2] at ended
  cases ended

theorem commandUnique {a b : Command} (ra : Ends r) (qb : Ends q)
    (same : a.tokens ++ r = b.tokens ++ q) : a = b ∧ r = q := by
  obtain ⟨name, arguments⟩ := a
  obtain ⟨name', arguments'⟩ := b
  obtain ⟨rfl, behind⟩ := leafTaken same
  cases arguments with
  | none =>
    cases arguments' with
    | none => exact ⟨rfl, behind⟩
    | some arguments' => exact absurd behind.symm (argumentsApart ra)
  | some arguments =>
    cases arguments' with
    | none => exact absurd behind (argumentsApart qb)
    | some arguments' =>
      obtain ⟨left, listing, right⟩ := arguments
      obtain ⟨left', listing', right'⟩ := arguments'
      simp only [Option.elim_some, Arguments.tokens, List.append_eq, List.cons_append, List.append_assoc,
        List.nil_append] at behind
      obtain ⟨rfl, further⟩ := leafTaken behind
      obtain ⟨rfl, rfl, rfl⟩ := listingUnique further
      exact ⟨rfl, rfl⟩

theorem headerUnique {a b : Header} (same : a.tokens ++ r = b.tokens ++ q) : a = b ∧ r = q := by
  obtain ⟨word, number, colon⟩ := a
  obtain ⟨word', number', colon'⟩ := b
  obtain ⟨rfl, first⟩ := leafTaken same
  obtain ⟨rfl, second⟩ := leafTaken first
  obtain ⟨rfl, rfl⟩ := leafTaken second
  exact ⟨rfl, rfl⟩

theorem testUnique {a b : Test} (same : a.tokens ++ r = b.tokens ++ q) : a = b ∧ r = q := by
  obtain ⟨word, left, condition, right⟩ := a
  obtain ⟨word', left', condition', right'⟩ := b
  simp only [Test.tokens, List.cons_append, List.append_assoc, List.nil_append] at same
  obtain ⟨rfl, first⟩ := leafTaken same
  obtain ⟨rfl, second⟩ := leafTaken first
  obtain ⟨rfl, third⟩ := chainUnique (leafEnds right rfl) (leafEnds right' rfl) second
  obtain ⟨rfl, rfl⟩ := leafTaken third
  exact ⟨rfl, rfl⟩

theorem commandNotTest {command : Command} {test : Test} : command.tokens ++ r ≠ test.tokens ++ q := by
  intro same
  have first : command.name.val = test.word.val := (List.cons.inj same).1
  have kind := test.word.2
  rw [← first] at kind
  rcases command.name.2 with other | ⟨w, other, names⟩
  · rw [kind] at other
    cases other
  · rw [kind] at other
    cases other
    cases names

theorem elseApart {word : Leaf (.keyword .elseWord)} (h : Ends r) : word.val :: q ≠ r := by
  rintro rfl
  have ended := h word.val rfl
  rw [word.2] at ended
  cases ended

theorem Step.start (step : Step) :
    ∃ (header : Header) (rest : List Token), step.tokens = header.word.val :: rest := by
  cases step with
  | command header | ifOnly header | ifElse header => exact ⟨header, _, rfl⟩

theorem stepsEnd (steps : List Step) (right : Leaf (.mark .rightBrace)) :
    Ends (stepTokens steps ++ right.val :: r) := by
  cases steps with
  | nil => exact leafEnds right rfl
  | cons step rest =>
    obtain ⟨header, behind, shape⟩ := step.start
    simp only [stepTokens, shape, List.cons_append]
    exact leafEnds header.word rfl

mutual

theorem Step.unique : (a b : Step) → {r q : List Token} → Ends r → Ends q →
    a.tokens ++ r = b.tokens ++ q → a = b ∧ r = q
  | .command header content, b, r, q, ra, qb, same => by
      cases b with
      | command header' content' =>
        simp only [tokens, List.append_assoc] at same
        obtain ⟨rfl, behind⟩ := headerUnique same
        obtain ⟨rfl, rfl⟩ := commandUnique ra qb behind
        exact ⟨rfl, rfl⟩
      | ifOnly | ifElse =>
        simp only [tokens, List.append_assoc] at same
        exact absurd (headerUnique same).2 commandNotTest
  | .ifOnly header test left body right, b, r, q, ra, qb, same => by
      cases b with
      | command =>
        simp only [tokens, List.append_assoc] at same
        exact absurd (headerUnique same).2.symm commandNotTest
      | ifOnly header' test' left' body' right' =>
        simp only [tokens, List.append_assoc, List.cons_append, List.nil_append] at same
        obtain ⟨rfl, first⟩ := headerUnique same
        obtain ⟨rfl, second⟩ := testUnique first
        obtain ⟨rfl, third⟩ := leafTaken second
        obtain ⟨rfl, rfl, rfl⟩ := Step.allUnique body body' third
        exact ⟨rfl, rfl⟩
      | ifElse header' test' left' body' right' =>
        simp only [tokens, List.append_assoc, List.cons_append, List.nil_append] at same
        obtain ⟨rfl, first⟩ := headerUnique same
        obtain ⟨rfl, second⟩ := testUnique first
        obtain ⟨rfl, third⟩ := leafTaken second
        obtain ⟨_, _, last⟩ := Step.allUnique body body' third
        exact absurd last.symm (elseApart ra)
  | .ifElse header test left body right word left₁ other right₁, b, r, q, ra, qb, same => by
      cases b with
      | command =>
        simp only [tokens, List.append_assoc] at same
        exact absurd (headerUnique same).2.symm commandNotTest
      | ifOnly header' test' left' body' right' =>
        simp only [tokens, List.append_assoc, List.cons_append, List.nil_append] at same
        obtain ⟨rfl, first⟩ := headerUnique same
        obtain ⟨rfl, second⟩ := testUnique first
        obtain ⟨rfl, third⟩ := leafTaken second
        obtain ⟨_, _, last⟩ := Step.allUnique body body' third
        exact absurd last (elseApart qb)
      | ifElse header' test' left' body' right' word' left₁' other' right₁' =>
        simp only [tokens, List.append_assoc, List.cons_append, List.nil_append] at same
        obtain ⟨rfl, first⟩ := headerUnique same
        obtain ⟨rfl, second⟩ := testUnique first
        obtain ⟨rfl, third⟩ := leafTaken second
        obtain ⟨rfl, rfl, fourth⟩ := Step.allUnique body body' third
        obtain ⟨rfl, fifth⟩ := leafTaken fourth
        obtain ⟨rfl, sixth⟩ := leafTaken fifth
        obtain ⟨rfl, rfl, rfl⟩ := Step.allUnique other other' sixth
        exact ⟨rfl, rfl⟩

theorem Step.allUnique : (a b : List Step) → {right right' : Leaf (.mark .rightBrace)} →
    {r q : List Token} → stepTokens a ++ right.val :: r = stepTokens b ++ right'.val :: q →
    a = b ∧ right = right' ∧ r = q
  | [], b, right, right', r, q, same => by
      cases b with
      | nil =>
        obtain ⟨rfl, rfl⟩ := leafTaken same
        exact ⟨rfl, rfl, rfl⟩
      | cons step rest =>
        obtain ⟨header, behind, shape⟩ := step.start
        simp only [stepTokens, shape, List.cons_append] at same
        exact absurd same (leavesApart nofun)
  | step :: rest, b, right, right', r, q, same => by
      cases b with
      | nil =>
        obtain ⟨header, behind, shape⟩ := step.start
        simp only [stepTokens, shape, List.cons_append] at same
        exact absurd same (leavesApart nofun)
      | cons step' rest' =>
        simp only [stepTokens, List.append_assoc] at same
        obtain ⟨rfl, behind⟩ := Step.unique step step' (stepsEnd rest right) (stepsEnd rest' right') same
        obtain ⟨rfl, rfl, rfl⟩ := Step.allUnique rest rest' behind
        exact ⟨rfl, rfl, rfl⟩

end

theorem declarationUnique {a b : Declaration} (ra : Ends r) (qb : Ends q)
    (same : a.tokens ++ r = b.tokens ++ q) : a = b ∧ r = q := by
  obtain ⟨word, name, equal, value⟩ := a
  obtain ⟨word', name', equal', value'⟩ := b
  obtain ⟨rfl, first⟩ := leafTaken same
  obtain ⟨rfl, second⟩ := leafTaken first
  obtain ⟨rfl, third⟩ := leafTaken second
  obtain ⟨rfl, rfl⟩ := chainUnique ra qb third
  exact ⟨rfl, rfl⟩

theorem workflowUnique {a b : Workflow} (same : a.tokens ++ r = b.tokens ++ q) :
    a = b ∧ r = q := by
  obtain ⟨word, name, left, steps, right⟩ := a
  obtain ⟨word', name', left', steps', right'⟩ := b
  simp only [Workflow.tokens, List.cons_append, List.append_assoc, List.nil_append] at same
  obtain ⟨rfl, first⟩ := leafTaken same
  obtain ⟨rfl, second⟩ := leafTaken first
  obtain ⟨rfl, third⟩ := leafTaken second
  obtain ⟨rfl, rfl, rfl⟩ := Step.allUnique steps steps' third
  exact ⟨rfl, rfl⟩

theorem declarationNotWorkflow {d : Declaration} {w : Workflow} : d.tokens ++ r ≠ w.tokens ++ q := by
  intro same
  have first : d.word.val = w.word.val := (List.cons.inj same).1
  obtain ⟨word, kind, declares⟩ := d.word.2
  rw [first, w.word.2] at kind
  cases kind
  cases declares

theorem Item.unique {a b : Item} (ra : Ends r) (qb : Ends q) (same : a.tokens ++ r = b.tokens ++ q) :
    a = b ∧ r = q := by
  cases a with
  | declaration d =>
    cases b with
    | declaration d' =>
      obtain ⟨rfl, rfl⟩ := declarationUnique ra qb same
      exact ⟨rfl, rfl⟩
    | workflow w => exact absurd same declarationNotWorkflow
  | workflow w =>
    cases b with
    | declaration d => exact absurd same.symm declarationNotWorkflow
    | workflow w' =>
      obtain ⟨rfl, rfl⟩ := workflowUnique same
      exact ⟨rfl, rfl⟩

theorem Item.start (item : Item) : ∃ t rest, item.tokens = t :: rest ∧ goesOn t.kind = false := by
  cases item with
  | declaration d =>
    obtain ⟨word, kind, declares⟩ := d.word.2
    refine ⟨d.word.val, _, rfl, ?_⟩
    rw [kind]
    cases word <;> first | rfl | cases declares
  | workflow w => exact ⟨w.word.val, _, rfl, by rw [w.word.2]; rfl⟩

theorem Source.ends (source : Source) : Ends source.tokens := by
  cases source with
  | nil => rintro _ ⟨⟩
  | cons item rest =>
    obtain ⟨t, behind, shape, quiet⟩ := item.start
    simp only [Source.tokens, List.flatMap_cons, shape, List.cons_append]
    exact endsCons quiet

theorem Source.unique {a b : Source} (same : a.tokens = b.tokens) : a = b := by
  induction a generalizing b with
  | nil =>
    cases b with
    | nil => rfl
    | cons item rest =>
      obtain ⟨t, behind, shape, _⟩ := item.start
      simp only [tokens, List.flatMap_cons, shape, List.flatMap_nil, List.cons_append] at same
      cases same
  | cons item rest ih =>
    cases b with
    | nil =>
      obtain ⟨t, behind, shape, _⟩ := item.start
      simp only [tokens, List.flatMap_cons, shape, List.flatMap_nil, List.cons_append] at same
      cases same
    | cons item' rest' =>
      have whole : item.tokens ++ Source.tokens rest = item'.tokens ++ Source.tokens rest' := same
      obtain ⟨rfl, behind⟩ := Item.unique (Source.ends rest) (Source.ends rest') whole
      rw [ih behind]

end Stepwise.Grammar
