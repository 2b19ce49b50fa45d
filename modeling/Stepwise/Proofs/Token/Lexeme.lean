import Stepwise.Proofs.Token.Number

/-! The classes of lexemes, and what the scanner cuts off at one place: a lexeme of the class that its
first character tells, and the longest there is. -/
namespace Stepwise
open Text Lexer

/- The texts that tokens of a kind are written as. -/
inductive Lexeme : TokenKind → List Char → Prop where
  | keyword (word : Keyword) : Lexeme (.keyword word) word.spelling.toList
  | identifier (first : Char) (more : List Char) (letter : isLetter first = true)
      (wordly : ∀ c ∈ more, isWordChar c = true)
      (free : ∀ word : Keyword, first :: more ≠ word.spelling.toList) :
      Lexeme .identifier (first :: more)
  | number (s : List Char) (spelled : NumberSpelling s) : Lexeme .number s
  | string (quote : Char) (body : List Char) (opens : isQuote quote = true)
      (inside : quote ∉ body) : Lexeme .string (quote :: (body ++ [quote]))
  | mark (mark : Mark) : Lexeme (.mark mark) mark.spelling

namespace Lexer

variable {c : Char} {rest s tail : List Char}

theorem asciiForall {P : Char → Prop} (each : ∀ n < 128, P (Char.ofNat n)) (h : c.toNat < 128) : P c := by
  have found := each c.toNat h
  rwa [Char.ofNat_toNat] at found

theorem letterAscii (h : isLetter c = true) : c.toNat < 128 := by
  simp only [isLetter, Bool.or_eq_true, Bool.and_eq_true, decide_eq_true_eq, beq_iff_eq] at h
  rcases h with (⟨_, high⟩ | ⟨_, high⟩) | rfl
  · have bound : c.toNat ≤ 122 := high
    omega
  · have bound : c.toNat ≤ 90 := high
    omega
  · decide

theorem letterApart (h : isLetter c = true) :
    isLayout c = false ∧ isQuote c = false ∧ isDigit c = false :=
  asciiForall (P := fun c => isLetter c = true →
    isLayout c = false ∧ isQuote c = false ∧ isDigit c = false) (by decide) (letterAscii h) h

theorem digitApart (h : isDigit c = true) :
    isLayout c = false ∧ isQuote c = false ∧ isLetter c = false :=
  digitForall (P := fun c => isLayout c = false ∧ isQuote c = false ∧ isLetter c = false)
    (by decide) h

theorem quoteApart (h : isQuote c = true) :
    isLayout c = false ∧ isDigit c = false ∧ isLetter c = false := by
  simp only [isQuote, Bool.or_eq_true, beq_iff_eq] at h
  rcases h with rfl | rfl <;> decide

theorem markApart (m : Mark) : ∃ first more, m.spelling = first :: more ∧
    isLayout first = false ∧ isQuote first = false ∧ isDigit first = false ∧
    isLetter first = false ∧ (more = [] ∨ more = ['=']) := by
  cases m <;> exact ⟨_, _, rfl, by decide, by decide, by decide, by decide, by decide⟩

theorem keywordWord (w : Keyword) : ∃ first more, w.spelling.toList = first :: more ∧
    more ≠ [] ∧ isLetter first = true ∧ ∀ c ∈ more, isWordChar c = true := by
  cases w <;> exact ⟨_, _, rfl, by decide, by decide, List.all_eq_true.mp (by decide)⟩

/-! What is cut off where a lexeme of some class stands. -/

theorem cutLayout (blank : isLayout c = true) : cut c rest = .layout := by
  unfold cut
  rw [if_pos blank]

theorem cutString (quote : isQuote c = true) : cut c rest =
    if (rest.takeWhile (· != c)).length < rest.length then
      .token .string ((rest.takeWhile (· != c)).length + 1) else .fault .unterminated := by
  simp [cut, quote, quoteApart quote]

theorem cutDigits (digit : isDigit c = true) : cut c rest = .token .number (numberLength rest) := by
  simp [cut, digit, digitApart digit]

theorem cutWord (letter : isLetter c = true) : cut c rest =
    .token (wordKind (String.ofList (c :: rest.takeWhile isWordChar)))
      (rest.takeWhile isWordChar).length := by
  simp [cut, letter, letterApart letter, takeRun]

theorem cutMark {m found : Mark} {others : List Char} {more : Nat}
    (starts : m.spelling = c :: others) (at_ : markAt? c rest = some (found, more)) :
    cut c rest = .token (.mark found) more := by
  obtain ⟨first, behind, spelling, blank, quote, digit, letter, _⟩ := markApart m
  obtain ⟨rfl, rfl⟩ := List.cons.inj (starts.symm.trans spelling)
  simp [cut, blank, quote, digit, letter, at_]

/- Characters of one sort at the beginning of a text lie within the run of that sort there. -/
theorem runLength {p : Char → Bool} (sort : ∀ c ∈ s, p c = true) :
    s.length ≤ ((s ++ tail).takeWhile p).length := by
  rw [List.takeWhile_append_of_pos sort, List.length_append]
  omega

theorem numberLongest (spelled : NumberSpelling s) (split : c :: rest = s ++ tail) :
    s.length ≤ numberLength rest + 1 := by
  cases spelled with
  | digits _ some digits =>
    obtain ⟨first, whole, rfl⟩ := List.exists_cons_of_ne_nil some
    rw [List.cons_append] at split
    obtain ⟨rfl, rfl⟩ := List.cons.inj split
    have bound : whole.length ≤ ((whole ++ tail).takeWhile isDigit).length :=
      runLength fun x inside => digits x (List.mem_cons_of_mem _ inside)
    unfold numberLength
    dsimp only
    split <;> simp only [List.length_cons] <;> omega
  | point whole fraction some digits someMore more =>
    obtain ⟨first, whole, rfl⟩ := List.exists_cons_of_ne_nil some
    rw [List.cons_append, List.cons_append] at split
    obtain ⟨rfl, rfl⟩ := List.cons.inj split
    have inWhole : ∀ x ∈ whole, isDigit x = true := fun x inside =>
      digits x (List.mem_cons_of_mem _ inside)
    have bound : fraction.length ≤ ((fraction ++ tail).takeWhile isDigit).length := runLength more
    have some := List.length_pos_iff.mpr someMore
    have shape : (whole ++ '.' :: fraction) ++ tail = whole ++ '.' :: (fraction ++ tail) := by simp
    have behind : (whole ++ '.' :: (fraction ++ tail)).drop (whole.length + 1) = fraction ++ tail := by
      simp [List.drop_append]
    have point : (whole ++ '.' :: (fraction ++ tail)).drop whole.length = '.' :: (fraction ++ tail) :=
      List.drop_left
    rw [shape]
    unfold numberLength
    dsimp only
    rw [Numeral.takeWhileDigits _ inWhole, behind, point, if_pos ⟨rfl, by omega⟩]
    simp only [List.length_cons, List.length_append]
    omega

theorem markLongest {m : Mark} (split : c :: rest = m.spelling ++ tail) :
    ∃ found more, markAt? c rest = some (found, more) ∧ m.spelling.length ≤ more + 1 := by
  unfold markAt?
  cases pair : Mark.all.find? fun m => m.spelling.length = 2 ∧ m.spelling.isPrefixOf (c :: rest) with
  | some found =>
    refine ⟨found, 1, rfl, ?_⟩
    cases m <;> decide
  | none =>
    have known : m ∈ Mark.all := by cases m <;> decide
    have short : m.spelling = [c] := by
      have apart := List.find?_eq_none.mp pair m known
      have begins : m.spelling.isPrefixOf (c :: rest) = true := by
        rw [List.isPrefixOf_iff_prefix, split]
        exact List.prefix_append _ _
      obtain ⟨first, more, spelling, _, _, _, _, rfl | rfl⟩ := markApart m
      · rw [spelling] at split ⊢
        exact congrArg (fun c => [c]) (List.cons.inj split).1.symm
      · rw [decide_eq_true_eq, begins] at apart
        exact absurd ⟨by rw [spelling]; rfl, rfl⟩ apart
    obtain ⟨found, single⟩ : ∃ found, Mark.all.find? (fun m => m.spelling = [c]) = some found :=
      Option.isSome_iff_exists.mp (List.find?_isSome.mpr ⟨m, known, decide_eq_true short⟩)
    exact ⟨found, 0, by simp [single], by rw [short]; rfl⟩

theorem wordLongest {first : Char} {more : List Char} (letter : isLetter first = true)
    (wordly : ∀ c ∈ more, isWordChar c = true) (split : c :: rest = (first :: more) ++ tail) :
    ∃ found size, cut c rest = .token found size ∧ (first :: more).length ≤ size + 1 := by
  rw [List.cons_append] at split
  obtain ⟨rfl, rfl⟩ := List.cons.inj split
  refine ⟨_, _, cutWord letter, ?_⟩
  rw [List.length_cons, Nat.add_le_add_iff_right]
  exact runLength wordly

theorem quotedBody {quote : Char} {body : List Char} (inside : quote ∉ body) :
    (body ++ quote :: tail).takeWhile (· != quote) = body := by
  have free : ∀ x ∈ body, (x != quote) = true := by
    intro x found
    rw [bne_iff_ne]
    rintro rfl
    exact inside found
  rw [List.takeWhile_append_of_pos free, List.takeWhile_cons_of_neg (by simp), List.append_nil]

theorem cutQuoted {quote : Char} {body : List Char} (opens : isQuote quote = true)
    (inside : quote ∉ body) :
    cut quote (body ++ quote :: tail) = .token .string (body.length + 1) := by
  rw [cutString opens, quotedBody inside, if_pos (by simp)]

/- Where a lexeme stands, a token is cut off that is as long at least. -/
theorem lexemeCut {kind : TokenKind} (h : Lexeme kind s) (split : c :: rest = s ++ tail) :
    ∃ found more, cut c rest = .token found more ∧ s.length ≤ more + 1 := by
  cases h with
  | keyword word =>
    obtain ⟨first, more, spelling, _, letter, wordly⟩ := keywordWord word
    rw [spelling] at split ⊢
    exact wordLongest letter wordly split
  | identifier first more letter wordly free => exact wordLongest letter wordly split
  | number _ spelled =>
    have long := numberLongest spelled split
    obtain ⟨first, more, rfl, digit⟩ := spelled.head
    rw [List.cons_append] at split
    obtain ⟨rfl, rfl⟩ := List.cons.inj split
    exact ⟨_, _, cutDigits digit, long⟩
  | string quote body opens inside =>
    rw [List.cons_append, List.append_assoc, List.singleton_append] at split
    obtain ⟨rfl, rfl⟩ := List.cons.inj split
    exact ⟨_, _, cutQuoted opens inside, by simp⟩
  | mark m =>
    obtain ⟨found, more, at_, long⟩ := markLongest split
    obtain ⟨first, others, spelling, _⟩ := markApart m
    rw [spelling, List.cons_append] at split
    obtain ⟨rfl, rfl⟩ := List.cons.inj split
    exact ⟨_, more, cutMark spelling at_, long⟩

/-! What is cut off is a lexeme. -/

theorem wordLexeme {first : Char} {more : List Char} (letter : isLetter first = true)
    (wordly : ∀ c ∈ more, isWordChar c = true) :
    Lexeme (wordKind (String.ofList (first :: more))) (first :: more) := by
  unfold wordKind Keyword.ofSpelling?
  cases found : Keyword.all.find? (·.spelling = String.ofList (first :: more)) with
  | some word =>
    have same : word.spelling = String.ofList (first :: more) := by
      simpa using List.find?_some found
    have spelled := Lexeme.keyword word
    rw [same, String.toList_ofList] at spelled
    exact spelled
  | none =>
    refine .identifier first more letter wordly fun word same => ?_
    have known : word ∈ Keyword.all := by cases word <;> decide
    have other := List.find?_eq_none.mp found word known
    rw [same, String.ofList_toList] at other
    exact other (decide_eq_true rfl)

theorem numberWithin (rest : List Char) : numberLength rest ≤ rest.length := by
  unfold numberLength
  dsimp only
  have whole := (List.takeWhile_sublist isDigit (l := rest)).length_le
  have fraction := (List.takeWhile_sublist isDigit
    (l := rest.drop ((rest.takeWhile isDigit).length + 1))).length_le
  rw [List.length_drop] at fraction
  split <;> omega

theorem markFound {m : Mark} {more : Nat} (h : markAt? c rest = some (m, more)) :
    more ≤ rest.length ∧ m.spelling = c :: rest.take more := by
  unfold markAt? at h
  cases pair : Mark.all.find? fun m => m.spelling.length = 2 ∧ m.spelling.isPrefixOf (c :: rest) with
  | some found =>
    rw [pair] at h
    cases h
    have holds := List.find?_some pair
    rw [decide_eq_true_eq, List.isPrefixOf_iff_prefix] at holds
    obtain ⟨two, tail, begins⟩ := holds
    obtain ⟨first, others, spelling, _, _, _, _, rfl | rfl⟩ := markApart m
    · rw [spelling] at two
      cases two
    · rw [spelling] at begins ⊢
      obtain ⟨rfl, rfl⟩ := List.cons.inj begins
      exact ⟨by simp, rfl⟩
  | none =>
    rw [pair] at h
    obtain ⟨found, single, same⟩ := Option.map_eq_some_iff.mp h
    cases same
    have spelling : m.spelling = [c] := by simpa using List.find?_some single
    exact ⟨Nat.zero_le _, spelling⟩

/- A quote in the rest closes the string that it opens. -/
theorem quoteCloses (closes : (rest.takeWhile (· != c)).length < rest.length) :
    rest.take ((rest.takeWhile (· != c)).length + 1) = rest.takeWhile (· != c) ++ [c] := by
  have parts := List.takeWhile_append_dropWhile (p := (· != c)) (l := rest)
  cases behind : rest.dropWhile (· != c) with
  | nil =>
    rw [behind, List.append_nil] at parts
    rw [parts] at closes
    exact absurd closes (Nat.lt_irrefl _)
  | cons x tail =>
    have stop : x = c := by
      have ends := List.head?_dropWhile_not (· != c) rest
      rw [behind] at ends
      simpa using ends
    rw [behind, stop] at parts
    calc rest.take ((rest.takeWhile (· != c)).length + 1)
        = (rest.takeWhile (· != c) ++ c :: tail).take ((rest.takeWhile (· != c)).length + 1) := by
          rw [parts]
      _ = rest.takeWhile (· != c) ++ [c] := by rw [List.take_length_add_append]; rfl

theorem cutLexeme {kind : TokenKind} {more : Nat} (h : cut c rest = .token kind more) :
    more ≤ rest.length ∧ Lexeme kind (c :: rest.take more) := by
  unfold cut at h
  split at h
  · cases h
  · split at h
    · rename_i quote
      dsimp only at h
      split at h
      · rename_i closes
        cases h
        have inside : c ∉ rest.takeWhile (· != c) := fun found => by
          simpa using List.mem_takeWhile_imp found
        rw [quoteCloses closes]
        exact ⟨closes, .string c _ quote inside⟩
      · cases h
    · split at h
      · rename_i digit
        cases h
        exact ⟨numberWithin rest, .number _ (numberCut rest digit)⟩
      · split at h
        · rename_i letter
          cases h
          rw [takeRun]
          refine ⟨(List.takeWhile_sublist isWordChar).length_le, ?_⟩
          exact wordLexeme letter fun x => List.mem_takeWhile_imp
        · split at h
          · rename_i found size at_
            cases h
            obtain ⟨within, spelling⟩ := markFound at_
            rw [← spelling]
            exact ⟨within, .mark found⟩
          · cases h

end Lexer
end Stepwise
