import Mathlib.Data.List.Basic
import Stepwise.Proofs.Token.Lexeme

/-! Scanning loses nothing. A text is scanned just when it can be divided into layout and lexemes at
all, and then its tokens with the layout between them are the text; each is the longest lexeme at its
place and knows its line. -/
namespace Stepwise
open Text Lexer

/- Texts that layout and lexemes make up, in whatever way. -/
inductive Divisible : List Char → Prop where
  | nothing : Divisible []
  | layout {c : Char} {rest : List Char} (blank : isLayout c = true) (behind : Divisible rest) :
      Divisible (c :: rest)
  | lexeme {kind : TokenKind} {s rest : List Char} (written : Lexeme kind s)
      (behind : Divisible rest) : Divisible (s ++ rest)

namespace Lexeme

variable {kind : TokenKind} {c : Char} {s : List Char}

theorem ofLetter (h : isLetter c = true) : Lexeme .identifier [c] := by
  refine .identifier c [] h nofun fun word same => ?_
  obtain ⟨first, more, spelling, some, _⟩ := keywordWord word
  rw [spelling] at same
  exact some (List.cons.inj same).2.symm

theorem ofDigit (h : isDigit c = true) : Lexeme .number [c] :=
  .number _ (.digits [c] nofun fun _ inside => List.mem_singleton.mp inside ▸ h)

theorem inText (h : Lexeme kind s) : kind ≠ .endOfInput := by
  cases h <;> nofun

/- A lexeme that begins with a quote is a string. In any other, each character behind the first could
stand alone. -/
theorem shape (h : Lexeme kind s) : ∃ first more, s = first :: more ∧
    if isQuote first then ∃ body, more = body ++ [first] ∧ first ∉ body
    else ∀ x ∈ more, isWordChar x = true ∨ x = '.' ∨ x = '=' := by
  cases h with
  | keyword word =>
    obtain ⟨first, more, spelling, _, letter, wordly⟩ := keywordWord word
    refine ⟨first, more, spelling, ?_⟩
    rw [if_neg (by simp [letterApart letter])]
    exact fun x inside => .inl (wordly x inside)
  | identifier first more letter wordly free =>
    refine ⟨first, more, rfl, ?_⟩
    rw [if_neg (by simp [letterApart letter])]
    exact fun x inside => .inl (wordly x inside)
  | number _ spelled =>
    have characters := spelled.characters
    obtain ⟨first, more, rfl, digit⟩ := spelled.head
    refine ⟨first, more, rfl, ?_⟩
    rw [if_neg (by simp [digitApart digit])]
    intro x inside
    rcases characters x (List.mem_cons_of_mem first inside) with digit | point
    · exact .inl (by simp [isWordChar, digit])
    · exact .inr (.inl point)
  | string quote body opens inside =>
    refine ⟨quote, _, rfl, ?_⟩
    rw [if_pos opens]
    exact ⟨body, rfl, inside⟩
  | mark m =>
    obtain ⟨first, more, spelling, _, quote, _, _, others⟩ := markApart m
    refine ⟨first, more, spelling, ?_⟩
    rw [if_neg (by simp [quote])]
    rcases others with rfl | rfl
    · nofun
    · exact fun x inside => .inr (.inr (List.mem_singleton.mp inside))

theorem quoted (h : Lexeme kind (c :: s)) (quote : isQuote c = true) :
    ∃ body, s = body ++ [c] ∧ c ∉ body := by
  obtain ⟨first, more, whole, shaped⟩ := h.shape
  obtain ⟨rfl, rfl⟩ := List.cons.inj whole
  rwa [if_pos quote] at shaped

theorem loose (h : Lexeme kind (c :: s)) (unquoted : isQuote c = false) :
    ∀ x ∈ s, isWordChar x = true ∨ x = '.' ∨ x = '=' := by
  obtain ⟨first, more, whole, shaped⟩ := h.shape
  obtain ⟨rfl, rfl⟩ := List.cons.inj whole
  rwa [if_neg (by simp [unquoted])] at shaped

end Lexeme

namespace Divisible

variable {kind : TokenKind} {c : Char} {s rest : List Char}

theorem split (h : Divisible (c :: rest)) : (isLayout c = true ∧ Divisible rest) ∨
    ∃ kind s behind, rest = s ++ behind ∧ Lexeme kind (c :: s) ∧ Divisible behind := by
  generalize whole : c :: rest = text at h
  cases h with
  | nothing => cases whole
  | layout blank behind =>
    obtain ⟨rfl, rfl⟩ := List.cons.inj whole
    exact .inl ⟨blank, behind⟩
  | lexeme written behind =>
    obtain ⟨first, more, rfl, _⟩ := written.shape
    obtain ⟨rfl, rfl⟩ := List.cons.inj whole
    exact .inr ⟨_, more, _, rfl, written, behind⟩

theorem alone (char : isWordChar c = true ∨ c = '.' ∨ c = '=') (behind : Divisible rest) :
    Divisible (c :: rest) := by
  rcases char with word | rfl | rfl
  · rw [isWordChar, Bool.or_eq_true] at word
    rcases word with found | found
    · exact .lexeme (.ofLetter found) behind
    · exact .lexeme (.ofDigit found) behind
  · exact .lexeme (.mark .dot) behind
  · exact .lexeme (.mark .equal) behind

theorem append (chars : ∀ c ∈ s, isWordChar c = true ∨ c = '.' ∨ c = '=') (behind : Divisible rest) :
    Divisible (s ++ rest) := by
  induction s with
  | nil => exact behind
  | cons c s ih =>
    exact alone (chars c List.mem_cons_self) (ih fun x inside =>
      chars x (List.mem_cons_of_mem _ inside))

theorem tail (h : Divisible (c :: rest)) (unquoted : isQuote c = false) : Divisible rest := by
  rcases h.split with ⟨_, behind⟩ | ⟨kind, s, behind, rfl, written, others⟩
  · exact behind
  · exact append (written.loose unquoted) others

theorem drop (h : Divisible (s ++ rest)) (unquoted : ∀ c ∈ s, isQuote c = false) :
    Divisible rest := by
  induction s with
  | nil => exact h
  | cons c s ih =>
    exact ih (h.tail (unquoted c List.mem_cons_self)) fun x inside =>
      unquoted x (List.mem_cons_of_mem _ inside)

end Divisible

theorem looseUnquoted {c : Char} (h : isWordChar c = true ∨ c = '.' ∨ c = '=') :
    isQuote c = false := by
  rcases h with word | rfl | rfl
  · rw [isWordChar, Bool.or_eq_true] at word
    rcases word with letter | digit
    · exact (letterApart letter).2.1
    · exact (digitApart digit).2.1
  · decide
  · decide

/- What can be divided somehow can be divided with the longest lexeme in front. -/
theorem divisibleCut {c : Char} {rest : List Char} (h : Divisible (c :: rest)) :
    (cut c rest = .layout ∧ Divisible rest) ∨
    ∃ kind more, cut c rest = .token kind more ∧ Divisible (rest.drop more) := by
  cases quote : isQuote c with
  | true =>
    -- a string is the only lexeme that begins with a quote, and it has one end only
    rcases h.split with ⟨blank, _⟩ | ⟨kind, s, behind, rfl, written, others⟩
    · rw [(quoteApart quote).1] at blank
      cases blank
    · obtain ⟨body, rfl, inside⟩ := written.quoted quote
      rw [List.append_assoc, List.singleton_append]
      refine .inr ⟨.string, body.length + 1, cutQuoted quote inside, ?_⟩
      rw [List.drop_length_add_append]
      exact others
  | false =>
    rcases h.split with ⟨blank, behind⟩ | ⟨kind, s, behind, rfl, written, others⟩
    · exact .inl ⟨cutLayout blank, behind⟩
    · have whole : c :: (s ++ behind) = (c :: s) ++ behind := rfl
      obtain ⟨found, more, cutting, _⟩ := lexemeCut written whole
      refine .inr ⟨found, more, cutting, ?_⟩
      have taken := (cutLexeme cutting).2.loose quote
      refine Divisible.drop (s := (s ++ behind).take more) ?_ fun x inside =>
        looseUnquoted (taken x inside)
      rw [List.take_append_drop]
      exact h.tail quote

/-! A divided text: characters of layout, and tokens. -/

inductive Segment where
  | layout (c : Char)
  | token (t : Token)

namespace Segment

def chars : Segment → List Char
  | .layout c => [c]
  | .token t => t.lexeme.toList

def token? : Segment → Option Token
  | .layout _ => none
  | .token t => some t

end Segment

/- The text that segments make up. -/
def spell (segments : List Segment) : List Char := segments.flatMap Segment.chars

/- What a token has to be at its place, between the text in front of it and the text behind it. -/
structure Placed (front : List Char) (t : Token) (behind : List Char) : Prop where
  inText : t.kind ≠ .endOfInput
  lexeme : Lexeme t.kind t.lexeme.toList
  longest : ∀ kind s rest, t.lexeme.toList ++ behind = s ++ rest → Lexeme kind s →
    s.length ≤ t.lexeme.toList.length
  keyword : ∀ word, t.kind = .keyword word ↔ t.lexeme = word.spelling
  string : t.kind = .string → ∃ quote body, t.lexeme.toList = quote :: (body ++ [quote]) ∧
    t.literal = some (String.ofList body)
  number : t.kind = .number → t.literal = some t.lexeme
  line : t.line = 1 + newlines front

/- Segments behind the text in front of them: all layout is blank, and each token is what it has to
be at its place. -/
structure Arranged (front : List Char) (segments : List Segment) : Prop where
  blank : ∀ c, .layout c ∈ segments → isLayout c = true
  placed : ∀ before t behind, segments = before ++ .token t :: behind →
    Placed (front ++ spell before) t (spell behind)

namespace Arranged

variable {front : List Char} {segments : List Segment}

theorem nothing (front : List Char) : Arranged front [] := ⟨nofun, by simp⟩

theorem layout {c : Char} (blank : isLayout c = true) (h : Arranged (front ++ [c]) segments) :
    Arranged front (.layout c :: segments) where
  blank x inside := by
    rcases List.mem_cons.mp inside with same | later
    · cases same
      exact blank
    · exact h.blank x later
  placed before t behind split := by
    cases before with
    | nil => cases split
    | cons first before =>
      obtain ⟨rfl, others⟩ := List.cons.inj split
      have later := h.placed before t behind others
      rwa [List.append_assoc] at later

theorem token {t : Token} (placed : Placed front t (spell segments))
    (h : Arranged (front ++ t.lexeme.toList) segments) : Arranged front (.token t :: segments) where
  blank x inside := by
    rcases List.mem_cons.mp inside with same | later
    · cases same
    · exact h.blank x later
  placed before other behind split := by
    cases before with
    | nil =>
      cases split
      rwa [spell, List.flatMap_nil, List.append_nil]
    | cons first before =>
      obtain ⟨rfl, others⟩ := List.cons.inj split
      have later := h.placed before other behind others
      rwa [List.append_assoc] at later

end Arranged

theorem keywordKind {kind : TokenKind} {s : List Char} (h : Lexeme kind s) (word : Keyword) :
    kind = .keyword word ↔ s = word.spelling.toList := by
  obtain ⟨first, more, spelling, _, letter, _⟩ := keywordWord word
  constructor
  · rintro rfl
    generalize same : TokenKind.keyword word = kind at h
    cases h <;> cases same
    rfl
  · intro same
    cases h with
    | keyword other =>
      rw [String.toList_inj] at same
      cases other <;> cases word <;> simp_all [Keyword.spelling]
    | identifier _ _ _ _ free => exact absurd same (free word)
    | number _ spelled =>
      obtain ⟨start, behind, rfl, digit⟩ := spelled.head
      obtain ⟨rfl, _⟩ := List.cons.inj (same.trans spelling)
      rw [(digitApart digit).2.2] at letter
      cases letter
    | string quote body opens inside =>
      obtain ⟨rfl, _⟩ := List.cons.inj (same.trans spelling)
      rw [(quoteApart opens).2.2] at letter
      cases letter
    | mark m =>
      obtain ⟨start, behind, marked, _, _, _, unlettered, _⟩ := markApart m
      obtain ⟨rfl, _⟩ := List.cons.inj (marked.symm.trans (same.trans spelling))
      rw [unlettered] at letter
      cases letter

theorem stringLexeme {s : List Char} (h : Lexeme .string s) :
    ∃ quote body, s = quote :: (body ++ [quote]) ∧
      literal? .string s = some (String.ofList body) := by
  generalize same : TokenKind.string = kind at h
  cases h <;> cases same
  rename_i quote body _ _
  refine ⟨quote, body, rfl, ?_⟩
  simp [literal?]

/- The token that the scanner makes of what it cuts off. -/
theorem cutPlaced {front rest : List Char} {c : Char} {kind : TokenKind} {more : Nat}
    (cutting : cut c rest = .token kind more) :
    Placed front ⟨kind, String.ofList (c :: rest.take more), literal? kind (c :: rest.take more),
      1 + newlines front⟩ (rest.drop more) := by
  obtain ⟨within, written⟩ := cutLexeme cutting
  refine ⟨written.inText, ?_, ?_, ?_, ?_, ?_, rfl⟩
  · rw [String.toList_ofList]
    exact written
  · intro other s behind split otherwise
    simp only [String.toList_ofList, List.cons_append, List.take_append_drop] at split ⊢
    obtain ⟨found, size, again, long⟩ := lexemeCut otherwise split
    rw [cutting] at again
    cases again
    simpa [List.length_take, Nat.min_eq_left within] using long
  · intro word
    rw [keywordKind written word, ← String.toList_inj, String.toList_ofList]
  · rintro rfl
    rw [String.toList_ofList]
    exact stringLexeme written
  · rintro rfl
    rfl

theorem newlinesAppend (a b : List Char) : newlines (a ++ b) = newlines a + newlines b :=
  List.count_append

theorem cutBlank {c : Char} {rest : List Char} (cutting : cut c rest = .layout) :
    isLayout c = true := by
  unfold cut at cutting
  split at cutting
  · assumption
  · dsimp only at cutting
    (repeat' split at cutting) <;> cases cutting

/- What a scan that succeeds makes of the rest of a text. -/
theorem scanSegments {line : Nat} {found : List Token} {rest : List Char} (front : List Char)
    (counted : line = 1 + newlines front) (ok : (scan line found rest).fault = none) :
    ∃ segments, spell segments = rest ∧ Arranged front segments ∧
      (scan line found rest).tokens = found.reverse ++
        (segments.filterMap Segment.token? ++ [.endAt (1 + newlines (front ++ rest))]) := by
  fun_induction scan line found rest generalizing front with
  | case1 line found =>
    subst counted
    exact ⟨[], rfl, .nothing front, by simp⟩
  | case2 line found c rest cutting ih =>
    have behind : line + newlines [c] = 1 + newlines (front ++ [c]) := by
      rw [newlinesAppend, counted, Nat.add_assoc]
    obtain ⟨segments, spelled, arranged, tokens⟩ := ih (front ++ [c]) behind ok
    refine ⟨.layout c :: segments, ?_, .layout (cutBlank cutting) arranged, ?_⟩
    · exact congrArg (c :: ·) spelled
    · rw [tokens, List.append_assoc]
      rfl
  | case3 line found c rest kind more cutting lexeme token ih =>
    have behind : line + newlines lexeme = 1 + newlines (front ++ lexeme) := by
      rw [newlinesAppend, counted, Nat.add_assoc]
    obtain ⟨segments, spelled, arranged, tokens⟩ := ih (front ++ lexeme) behind ok
    have written : token.lexeme.toList = lexeme := String.toList_ofList
    have whole : lexeme ++ rest.drop more = c :: rest := by simp [lexeme]
    refine ⟨.token token :: segments, ?_, .token ?_ ?_, ?_⟩
    · change token.lexeme.toList ++ spell segments = c :: rest
      rw [written, spelled, whole]
    · rw [spelled]
      subst counted
      exact cutPlaced cutting
    · rwa [written]
    · rw [tokens, List.append_assoc, whole, List.reverse_cons, List.append_assoc]
      rfl
  | case4 line found c rest cutting => cases ok
  | case5 line found c rest cause other cutting => cases ok

theorem arrangedDivisible {front : List Char} {segments : List Segment}
    (h : Arranged front segments) : Divisible (spell segments) := by
  have each : ∀ segment ∈ segments,
      (∃ c, segment = .layout c ∧ isLayout c = true) ∨
      ∃ t, segment = .token t ∧ Lexeme t.kind t.lexeme.toList := by
    intro segment inside
    cases segment with
    | layout c => exact .inl ⟨c, rfl, h.blank c inside⟩
    | token t =>
      obtain ⟨before, behind, split⟩ := List.append_of_mem inside
      exact .inr ⟨t, rfl, (h.placed before t behind split).lexeme⟩
  clear h
  induction segments with
  | nil => exact .nothing
  | cons segment rest ih =>
    have others := ih fun x inside => each x (List.mem_cons_of_mem _ inside)
    rcases each segment List.mem_cons_self with ⟨c, rfl, blank⟩ | ⟨t, rfl, written⟩
    · exact .layout blank others
    · exact .lexeme written others

theorem scanDivisible {line : Nat} {found : List Token} {rest : List Char} (h : Divisible rest) :
    (scan line found rest).fault = none := by
  fun_induction scan line found rest with
  | case1 line found => rfl
  | case2 line found c rest cutting ih =>
    rcases divisibleCut h with ⟨_, behind⟩ | ⟨kind, more, otherwise, _⟩
    · exact ih behind
    · rw [cutting] at otherwise
      cases otherwise
  | case3 line found c rest kind more cutting lexeme token ih =>
    rcases divisibleCut h with ⟨otherwise, _⟩ | ⟨other, size, again, behind⟩
    · rw [cutting] at otherwise
      cases otherwise
    · rw [cutting] at again
      cases again
      exact ih behind
  | case4 line found c rest cutting =>
    rcases divisibleCut h with ⟨otherwise, _⟩ | ⟨other, size, otherwise, _⟩
    all_goals
      rw [cutting] at otherwise
      cases otherwise
  | case5 line found c rest cause other cutting =>
    rcases divisibleCut h with ⟨otherwise, _⟩ | ⟨other, size, otherwise, _⟩
    all_goals
      rw [cutting] at otherwise
      cases otherwise

/- A text is scanned just when layout and lexemes make it up. Its tokens, with the layout that is
skipped between them, are then the whole text in order; each token is the longest lexeme at its place,
of the kind and the literal that its lexeme has, and on the line that the text in front of it ends on;
and the end of input stands behind them, on the last line. -/
theorem tokenizeLossless (source : String) :
    ((∃ ts, tokenize source = .ok ts) ↔ Divisible source.toList) ∧
    ∀ ts, tokenize source = .ok ts → ∃ segments, spell segments = source.toList ∧
      Arranged [] segments ∧
      ts = segments.filterMap Segment.token? ++ [.endAt (1 + newlines source.toList)] := by
  have scanned : tokenize source = (scan 1 [] source.toList).result := rfl
  have found : ∀ ts, tokenize source = .ok ts → ∃ segments, spell segments = source.toList ∧
      Arranged [] segments ∧
      ts = segments.filterMap Segment.token? ++ [.endAt (1 + newlines source.toList)] := by
    intro ts ok
    rw [scanned, Scan.result] at ok
    split at ok
    · cases ok
    · rename_i whole
      cases ok
      exact scanSegments [] rfl whole
  refine ⟨⟨?_, ?_⟩, found⟩
  · rintro ⟨ts, ok⟩
    obtain ⟨segments, spelled, arranged, _⟩ := found ts ok
    rw [← spelled]
    exact arrangedDivisible arranged
  · intro divisible
    rw [scanned, Scan.result, scanDivisible divisible]
    exact ⟨_, rfl⟩

/- A string over two lines with the other quote in it, a number with a point behind it, and marks that
could be cut in other ways. -/
def mixedText : String := "let a = 'x\n\"' <== 1.5.b\n"

def mixedTokens : List Token :=
  [⟨.keyword .letWord, "let", none, 1⟩, ⟨.identifier, "a", none, 1⟩, ⟨.mark .equal, "=", none, 1⟩,
    ⟨.string, "'x\n\"'", some "x\n\"", 1⟩, ⟨.mark .lessEqual, "<=", none, 2⟩,
    ⟨.mark .equal, "=", none, 2⟩, ⟨.number, "1.5", some "1.5", 2⟩, ⟨.mark .dot, ".", none, 2⟩,
    ⟨.identifier, "b", none, 2⟩, .endAt 3]

theorem mixedTextLossless :
    tokenize mixedText = .ok mixedTokens ∧ ∃ segments, spell segments = mixedText.toList ∧
      Arranged [] segments ∧ mixedTokens =
        segments.filterMap Segment.token? ++ [.endAt (1 + newlines mixedText.toList)] := by
  have scanned : tokenize mixedText = .ok mixedTokens := by cbv
  exact ⟨scanned, (tokenizeLossless mixedText).2 mixedTokens scanned⟩

end Stepwise
