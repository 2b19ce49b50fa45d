import Stepwise.Proofs.Token.Lossless

/-! Texts that write tokens out. A lexeme is of one kind only, and with layout or nothing behind it is
cut off as it is; so texts that lay out the same lexemes differ in the lines of their tokens at most.
A name is also cut off in front of a point, and digits in front of a point and a letter. -/
namespace Stepwise
open Text Lexer

/- Whether the lexemes of a kind begin with a letter, with a digit, and with a quote. -/
def TokenKind.beginning : TokenKind → Bool × Bool × Bool
  | .keyword _ | .identifier => (true, false, false)
  | .number => (false, true, false)
  | .string => (false, false, true)
  | .mark _ | .endOfInput => (false, false, false)

namespace Lexeme

variable {kind other : TokenKind} {c : Char} {s : List Char}

theorem begins (h : Lexeme kind (c :: s)) :
    (isLetter c, isDigit c, isQuote c) = kind.beginning := by
  generalize whole : c :: s = text at h
  cases h with
  | keyword word =>
    obtain ⟨first, more, spelling, _, letter, _⟩ := keywordWord word
    obtain ⟨rfl, _⟩ := List.cons.inj (whole.trans spelling)
    simp [TokenKind.beginning, letter, letterApart letter]
  | identifier first more letter =>
    obtain ⟨rfl, _⟩ := List.cons.inj whole
    simp [TokenKind.beginning, letter, letterApart letter]
  | number _ spelled =>
    obtain ⟨first, more, rfl, digit⟩ := spelled.head
    obtain ⟨rfl, _⟩ := List.cons.inj whole
    simp [TokenKind.beginning, digit, digitApart digit]
  | string quote body opens =>
    obtain ⟨rfl, _⟩ := List.cons.inj whole
    simp [TokenKind.beginning, opens, quoteApart opens]
  | mark m =>
    obtain ⟨first, more, spelling, _, quote, digit, letter, _⟩ := markApart m
    obtain ⟨rfl, _⟩ := List.cons.inj (whole.trans spelling)
    simp [TokenKind.beginning, quote, digit, letter]

theorem markSpelling {m : Mark} (h : Lexeme (.mark m) s) : s = m.spelling := by
  generalize same : TokenKind.mark m = kind at h
  cases h <;> cases same
  rfl

theorem markFor (m : Mark) : Mark.all.find? (fun other => other.spelling = m.spelling) = some m := by
  cases m <;> rfl

theorem unique (h : Lexeme kind s) (k : Lexeme other s) : kind = other := by
  obtain ⟨c, more, rfl, _⟩ := h.shape
  have sorts := h.begins.symm.trans k.begins
  cases kind with
  | keyword word => exact (((keywordKind k word).mpr ((keywordKind h word).mp rfl))).symm
  | endOfInput => exact absurd rfl h.inText
  | mark m =>
    cases other with
    | mark n =>
      have same := markFor m
      rw [← h.markSpelling, k.markSpelling, markFor n] at same
      rw [Option.some.inj same]
    | endOfInput => exact absurd rfl k.inText
    | _ => cases sorts
  | identifier =>
    cases other with
    | keyword word => exact (keywordKind h word).mpr ((keywordKind k word).mp rfl)
    | identifier => rfl
    | _ => cases sorts
  | string | number =>
    cases other with
    | string | number => first | rfl | cases sorts
    | _ => cases sorts

end Lexeme

namespace Lexer

variable {kind : TokenKind} {c : Char} {s rest : List Char}

theorem looseSolid (h : isWordChar c = true ∨ c = '.' ∨ c = '=') : isLayout c = false := by
  rcases h with word | rfl | rfl
  · rw [isWordChar, Bool.or_eq_true] at word
    rcases word with letter | digit
    · exact (letterApart letter).1
    · exact (digitApart digit).1
  · decide
  · decide

/- With layout or nothing behind it, a lexeme is cut off whole and nothing more. -/
theorem cutApart (h : Lexeme kind (c :: s)) (apart : ∀ x ∈ rest.head?, isLayout x = true) :
    cut c (s ++ rest) = .token kind s.length := by
  cases quote : isQuote c with
  | true =>
    obtain ⟨body, rfl, inside⟩ := h.quoted quote
    have string : kind = .string := h.unique (.string c body quote inside)
    rw [List.append_assoc, List.singleton_append, cutQuoted quote inside, string,
      List.length_append, List.length_singleton]
  | false =>
    have whole : c :: (s ++ rest) = (c :: s) ++ rest := rfl
    obtain ⟨found, more, cutting, long⟩ := lexemeCut h whole
    obtain ⟨within, cutOff⟩ := cutLexeme cutting
    have size : more = s.length := by
      refine Nat.le_antisymm (Nat.le_of_not_lt fun further => ?_) (Nat.le_of_succ_le_succ long)
      -- what is cut off beyond the lexeme would begin with layout
      obtain ⟨x, tail, rfl⟩ : ∃ x tail, rest = x :: tail := by
        refine List.exists_cons_of_ne_nil fun none => ?_
        rw [none, List.append_nil] at within
        exact absurd within (Nat.not_le_of_lt further)
      have taken : x ∈ (s ++ x :: tail).take more :=
        List.mem_take_iff_getElem.mpr ⟨s.length, by simp; omega, by simp⟩
      have solid := looseSolid (cutOff.loose quote x taken)
      rw [apart x rfl] at solid
      cases solid
    subst size
    rw [List.take_left] at cutOff
    rw [cutting, cutOff.unique h]

/-! One step of a scan. -/

variable {line : Nat} {found : List Token} {more : Nat}

theorem scanLayout (cutting : cut c rest = .layout) :
    scan line found (c :: rest) = scan (line + newlines [c]) found rest := by
  rw [scan, cutting]

theorem scanToken (cutting : cut c rest = .token kind more) :
    scan line found (c :: rest) = scan (line + newlines (c :: rest.take more))
      (⟨kind, String.ofList (c :: rest.take more), literal? kind (c :: rest.take more), line⟩ :: found)
      (rest.drop more) := by
  rw [scan, cutting]

end Lexer

def Token.relined (g : Nat → Nat) (t : Token) : Token := { t with line := g t.line }

/- A token that is what its lexeme tells. -/
structure Token.Written (t : Token) : Prop where
  lexeme : Lexeme t.kind t.lexeme.toList
  literal : t.literal = literal? t.kind t.lexeme.toList

/- What is scanned is written, but for the end of input behind it. -/
theorem scanWritten {line : Nat} {found : List Token} {s : List Char} (h : ∀ t ∈ found, t.Written)
    (ok : (scan line found s).fault = none) :
    ∃ ts last, (scan line found s).tokens = ts ++ [.endAt last] ∧ ∀ t ∈ ts, t.Written := by
  fun_induction scan line found s with
  | case1 line found =>
    exact ⟨found.reverse, line, List.reverse_cons, fun t inside => h t (List.mem_reverse.mp inside)⟩
  | case2 line found c rest cutting ih => exact ih h ok
  | case3 line found c rest kind more cutting lexeme token ih =>
    refine ih (List.forall_mem_cons.mpr ⟨⟨?_, ?_⟩, h⟩) ok
    · change Lexeme kind (String.ofList lexeme).toList
      rw [String.toList_ofList]
      exact (cutLexeme cutting).2
    · change literal? kind lexeme = literal? kind (String.ofList lexeme).toList
      rw [String.toList_ofList]
  | case4 line found c rest cutting => cases ok
  | case5 line found c rest cause other cutting => cases ok

/- Texts that write tokens out in order, each with layout or the end of the text behind it, and with
further layout wherever it likes. -/
inductive Laid : List Token → List Char → Prop where
  | nothing : Laid [] []
  | layout {ts : List Token} {text : List Char} {c : Char} (blank : isLayout c = true)
      (behind : Laid ts text) : Laid ts (c :: text)
  | token {ts : List Token} {text : List Char} (t : Token)
      (apart : ∀ c ∈ text.head?, isLayout c = true) (behind : Laid ts text) :
      Laid (t :: ts) (t.lexeme.toList ++ text)

/- Texts that are cut into tokens in order, with layout between them where it likes. -/
inductive CutInto : List Token → List Char → Prop where
  | nothing : CutInto [] []
  | layout {ts : List Token} {text : List Char} {c : Char} (blank : isLayout c = true)
      (behind : CutInto ts text) : CutInto ts (c :: text)
  | token {ts : List Token} {text s : List Char} {c : Char} (t : Token)
      (spelling : t.lexeme.toList = c :: s) (cutting : cut c (s ++ text) = .token t.kind s.length)
      (behind : CutInto ts text) : CutInto (t :: ts) (t.lexeme.toList ++ text)

/- The tokens that a text is cut into are scanned from it, on lines of their own. -/
theorem scanCut {ts : List Token} {text : List Char} (h : CutInto ts text)
    (written : ∀ t ∈ ts, t.Written) (line : Nat) (found : List Token) :
    ∃ again last, scan line found text = ⟨found.reverse ++ (again ++ [.endAt last]), [], last, none⟩ ∧
      again.map (Token.relined fun _ => 0) = ts.map (Token.relined fun _ => 0) := by
  induction h generalizing line found with
  | nothing =>
    refine ⟨[], line, ?_, rfl⟩
    rw [scan, List.reverse_cons, List.nil_append]
  | layout blank behind ih =>
    rw [scanLayout (cutLayout blank)]
    exact ih written _ found
  | @token ts text s c t spelling cutting behind ih =>
    obtain ⟨itself, others⟩ := List.forall_mem_cons.mp written
    obtain ⟨again, last, scanned, same⟩ := ih others (line + newlines (c :: s))
      (⟨t.kind, String.ofList (c :: s), literal? t.kind (c :: s), line⟩ :: found)
    refine ⟨⟨t.kind, String.ofList (c :: s), literal? t.kind (c :: s), line⟩ :: again, last, ?_, ?_⟩
    · rw [spelling, List.cons_append, scanToken cutting, List.take_left, List.drop_left,
        scanned, List.reverse_cons, List.append_assoc]
      rfl
    · rw [List.map_cons, List.map_cons, same]
      simp only [Token.relined, itself.literal, spelling]
      rw [← spelling, String.ofList_toList]

/- A token with layout or nothing behind it. -/
theorem CutInto.apart {ts : List Token} {text : List Char} {t : Token} (written : t.Written)
    (apart : ∀ c ∈ text.head?, isLayout c = true) (behind : CutInto ts text) :
    CutInto (t :: ts) (t.lexeme.toList ++ text) := by
  obtain ⟨c, s, spelling, _⟩ := written.lexeme.shape
  have lexeme := written.lexeme
  rw [spelling] at lexeme
  exact .token t spelling (cutApart lexeme apart) behind

/- A name with a point behind it. -/
theorem CutInto.named {ts : List Token} {text : List Char} {t : Token} (written : t.Written)
    (name : t.kind = .identifier) (behind : CutInto ts ('.' :: text)) :
    CutInto (t :: ts) (t.lexeme.toList ++ '.' :: text) := by
  have lexeme := written.lexeme
  rw [name] at lexeme
  generalize spelling : t.lexeme.toList = s at lexeme
  cases lexeme with
  | identifier first more letter wordly free =>
    have stop : isWordChar '.' = false := by decide
    have run : (more ++ '.' :: text).takeWhile isWordChar = more := by
      rw [List.takeWhile_append_of_pos wordly, List.takeWhile_cons_of_neg (by simp [stop]),
        List.append_nil]
    have kind : wordKind (String.ofList (first :: more)) = .identifier :=
      (wordLexeme letter wordly).unique (.identifier first more letter wordly free)
    rw [← spelling]
    refine .token t spelling ?_ behind
    rw [cutWord letter, run, kind, name]

/- Digits with a point behind them that no digit follows. -/
theorem CutInto.plain {ts : List Token} {text : List Char} {t : Token} {x : Char} (written : t.Written)
    (number : t.kind = .number) (digits : t.IsPlain) (other : isDigit x = false)
    (behind : CutInto ts ('.' :: x :: text)) :
    CutInto (t :: ts) (t.lexeme.toList ++ '.' :: x :: text) := by
  obtain ⟨c, s, spelling, _⟩ := written.lexeme.shape
  obtain ⟨first, more⟩ : isDigit c = true ∧ ∀ d ∈ s, isDigit d = true := by
    unfold Token.IsPlain at digits
    rw [spelling] at digits
    exact List.forall_mem_cons.mp digits
  refine .token t spelling ?_ behind
  rw [cutDigits first, number, numberLength, Numeral.takeWhileDigits _ more]
  have fraction : (s ++ '.' :: x :: text).drop (s.length + 1) = x :: text := by
    simp [List.drop_append]
  simp [fraction, other]

theorem CutInto.dot {ts : List Token} {text : List Char} {t : Token} (written : t.Written)
    (point : t.kind = .mark .dot) (behind : CutInto ts text) :
    CutInto (t :: ts) ('.' :: text) := by
  have lexeme := written.lexeme
  rw [point] at lexeme
  have spelling : t.lexeme.toList = ['.'] := lexeme.markSpelling
  have at_ : markAt? '.' text = some (.dot, 0) := by
    simp [markAt?, Mark.all, Mark.spelling]
  have cutting : cut '.' ([] ++ text) = .token t.kind 0 := by
    rw [List.nil_append, cutMark (m := .dot) rfl at_, point]
  have cutOff := CutInto.token t spelling cutting behind
  rwa [spelling] at cutOff

theorem Laid.cutInto {ts : List Token} {text : List Char} (h : Laid ts text)
    (written : ∀ t ∈ ts, t.Written) : CutInto ts text := by
  induction h with
  | nothing => exact .nothing
  | layout blank behind ih => exact .layout blank (ih written)
  | token t apart behind ih =>
    obtain ⟨itself, others⟩ := List.forall_mem_cons.mp written
    exact .apart itself apart (ih others)

/- Whatever text is cut into tokens that are written, tokenizing it gives them, on lines of their own,
with the end of input behind them. -/
theorem tokenizeCut {ts : List Token} {text : String} (h : CutInto ts text.toList)
    (written : ∀ t ∈ ts, t.Written) (line : Nat) :
    ∃ again, tokenize text = .ok again ∧
      again.map (Token.relined fun _ => 0) = (ts ++ [Token.endAt line]).map (Token.relined fun _ => 0) := by
  obtain ⟨again, last, scanned, same⟩ := scanCut h written 1 []
  refine ⟨again ++ [.endAt last], ?_, ?_⟩
  · change (scan 1 [] text.toList).result = _
    rw [scanned]
    rfl
  · rw [List.map_append, List.map_append, same]
    rfl

theorem tokenizeWritten {source : String} {ts : List Token} (h : tokenize source = .ok ts) :
    ∃ each last, ts = each ++ [.endAt last] ∧ ∀ t ∈ each, t.Written := by
  obtain ⟨whole, rfl⟩ := tokenizeScanned h
  exact scanWritten (by nofun) whole

/- A text that writes out what is scanned from another is scanned to the same tokens, on lines of its
own. -/
theorem tokenizeRelaid {source text : String} {ts : List Token} (scanned : tokenize source = .ok ts)
    (laid : Laid ts.dropLast text.toList) :
    ∃ again, tokenize text = .ok again ∧
      again.map (Token.relined fun _ => 0) = ts.map (Token.relined fun _ => 0) := by
  obtain ⟨each, last, rfl, written⟩ := tokenizeWritten scanned
  rw [List.dropLast_concat] at laid
  exact tokenizeCut (laid.cutInto written) written last

end Stepwise
