import Mathlib.Data.List.TakeWhile
import Stepwise.Program.Assembly
import Stepwise.Token.Lexer

/-! Number lexemes. The scanner cuts off digits, or digits, a point and more digits; each such text
spells a number, and it spells a natural number just when it has no point and is not too long. -/
namespace Stepwise
open Text

variable {c : Char} {s whole fraction : List Char}

/- Digits, perhaps with a point and further digits behind them. -/
inductive NumberSpelling : List Char → Prop where
  | digits (whole : List Char) (some : whole ≠ []) (digits : ∀ c ∈ whole, isDigit c = true) :
      NumberSpelling whole
  | point (whole fraction : List Char) (some : whole ≠ []) (digits : ∀ c ∈ whole, isDigit c = true)
      (someMore : fraction ≠ []) (more : ∀ c ∈ fraction, isDigit c = true) :
      NumberSpelling (whole ++ '.' :: fraction)

namespace Text

/- What holds of the ten digits. -/
theorem digitForall {P : Char → Prop} (each : ∀ n < 10, P (Char.ofNat (48 + n)))
    (h : isDigit c = true) : P c := by
  simp only [isDigit, Bool.and_eq_true, decide_eq_true_eq] at h
  have low : 48 ≤ c.toNat := h.1
  have high : c.toNat ≤ 57 := h.2
  have found := each (c.toNat - 48) (by omega)
  rwa [show 48 + (c.toNat - 48) = c.toNat by omega, Char.ofNat_toNat] at found

theorem digitValue (h : isDigit c = true) : digitValue? c = some (c.toNat - '0'.toNat) :=
  digitForall (P := fun c => digitValue? c = some (c.toNat - '0'.toNat)) (by decide) h

theorem digitSign (h : isDigit c = true) : isDigitSign c = true :=
  digitForall (P := fun c => isDigitSign c = true) (by decide) h

end Text

namespace NumberSpelling

theorem characters (h : NumberSpelling s) : ∀ c ∈ s, isDigit c = true ∨ c = '.' := by
  cases h with
  | digits _ _ digits => exact fun c inside => .inl (digits c inside)
  | point whole fraction _ digits _ more =>
    intro c inside
    simp only [List.mem_append, List.mem_cons] at inside
    rcases inside with inside | rfl | inside
    · exact .inl (digits c inside)
    · exact .inr rfl
    · exact .inl (more c inside)

theorem head (h : NumberSpelling s) : ∃ c rest, s = c :: rest ∧ isDigit c = true := by
  cases h with
  | digits _ some digits =>
    obtain ⟨c, rest, rfl⟩ := List.exists_cons_of_ne_nil some
    exact ⟨c, rest, rfl, digits c List.mem_cons_self⟩
  | point whole fraction some digits =>
    obtain ⟨c, rest, rfl⟩ := List.exists_cons_of_ne_nil some
    exact ⟨c, rest ++ '.' :: fraction, rfl, digits c List.mem_cons_self⟩

end NumberSpelling

namespace Lexer

theorem takeRun (p : Char → Bool) (rest : List Char) :
    rest.take (rest.takeWhile p).length = rest.takeWhile p :=
  (List.prefix_iff_eq_take.mp (List.takeWhile_prefix p)).symm

theorem dropWhole (rest : List Char) :
    rest.drop (rest.takeWhile isDigit).length = rest.dropWhile isDigit := by
  have parts := List.takeWhile_append_dropWhile (p := isDigit) (l := rest)
  calc rest.drop (rest.takeWhile isDigit).length
      = (rest.takeWhile isDigit ++ rest.dropWhile isDigit).drop (rest.takeWhile isDigit).length := by
        rw [parts]
    _ = rest.dropWhile isDigit := List.drop_left

theorem numberCut (rest : List Char) (first : isDigit c = true) :
    NumberSpelling (c :: rest.take (numberLength rest)) := by
  have digits : ∀ x ∈ c :: rest.takeWhile isDigit, isDigit x = true := by
    intro x inside
    rcases List.mem_cons.mp inside with rfl | inside
    · exact first
    · exact List.mem_takeWhile_imp inside
  unfold numberLength
  simp only
  split
  · rename_i found
    obtain ⟨point, more⟩ := found
    rw [dropWhole] at point
    obtain ⟨behind, split⟩ := List.head?_eq_some_iff.mp point
    have tail : rest.drop ((rest.takeWhile isDigit).length + 1) = behind := by
      rw [← List.drop_drop, dropWhole, split, List.drop_one, List.tail_cons]
    rw [tail] at more ⊢
    have taken : rest.take ((rest.takeWhile isDigit).length + 1 + (behind.takeWhile isDigit).length) =
        rest.takeWhile isDigit ++ '.' :: behind.takeWhile isDigit := by
      rw [Nat.add_assoc, List.take_add, takeRun, dropWhole, split, Nat.add_comm, List.take_succ_cons,
        takeRun]
    rw [taken]
    exact .point (c :: rest.takeWhile isDigit) _ (List.cons_ne_nil _ _) digits
      (List.ne_nil_of_length_pos more) fun x => List.mem_takeWhile_imp
  · rw [takeRun]
    exact .digits _ (List.cons_ne_nil _ _) digits

end Lexer

namespace Numeral

/- The decimal that digits, perhaps with a point and further digits behind them, spell. -/
def spelled (s : List Char) : Decimal :=
  let whole := s.takeWhile isDigit
  let fraction := (s.dropWhile isDigit).drop 1
  ⟨Decimal.ofDigitChars (whole ++ fraction), -fraction.length⟩

/- Characters that a number is read from as they stand. -/
def isClear (c : Char) : Bool := ascii? c == some c && !isAsciiBlank c && !isBlank c && c != '_'

abbrev Clear (s : List Char) : Prop := s.all isClear = true

theorem clearAt (h : Clear s) (inside : c ∈ s) :
    ascii? c = some c ∧ isAsciiBlank c = false ∧ isBlank c = false ∧ c ≠ '_' := by
  simpa [isClear, and_assoc] using List.all_eq_true.mp h c inside

theorem spelledClear (h : NumberSpelling s) : Clear s := by
  refine List.all_eq_true.mpr fun c inside => ?_
  rcases h.characters c inside with digit | rfl
  · exact digitForall (P := fun c => isClear c = true) (by decide) digit
  · decide

theorem asciiClear (h : ∀ c ∈ s, ascii? c = some c) : s.mapM ascii? = some s := by
  induction s with
  | nil => rfl
  | cons c rest ih =>
    obtain ⟨first, others⟩ := List.forall_mem_cons.mp h
    simp [List.mapM_cons, first, ih others]

theorem trimNone {drop : Char → Bool} (h : ∀ c ∈ s, drop c = false) : trimBy drop s = s := by
  have kept : ∀ l : List Char, (∀ c ∈ l, drop c = false) → l.dropWhile drop = l := by
    intro l none
    refine List.dropWhile_eq_self_iff.mpr fun long dropped => ?_
    rw [none _ (List.getElem_mem long)] at dropped
    cases dropped
  have backward : ∀ c ∈ s.reverse, drop c = false := fun c inside => h c (List.mem_reverse.mp inside)
  unfold trimBy
  rw [kept s h, kept s.reverse backward, List.reverse_reverse]

theorem ungroupNone {afterDigit : Bool} (h : ∀ c ∈ s, c ≠ '_') : ungroup? afterDigit s = some s := by
  induction s generalizing afterDigit with
  | nil => rfl
  | cons c rest ih =>
    have others : ungroup? (isDigit c) rest = some rest :=
      ih fun x inside => h x (List.mem_cons_of_mem c inside)
    unfold ungroup?
    rw [if_neg (h c List.mem_cons_self), others, Option.map_some]

theorem takeWhileDigits (fraction : List Char) (digits : ∀ c ∈ whole, isDigit c = true) :
    (whole ++ '.' :: fraction).takeWhile isDigit = whole := by
  rw [List.takeWhile_append_of_pos digits, List.takeWhile_cons_of_neg (by decide), List.append_nil]

theorem dropWhileDigits (fraction : List Char) (digits : ∀ c ∈ whole, isDigit c = true) :
    (whole ++ '.' :: fraction).dropWhile isDigit = '.' :: fraction := by
  rw [List.dropWhile_append_of_pos digits, List.dropWhile_cons_of_neg (by decide)]

theorem spelledDigits (digits : ∀ c ∈ whole, isDigit c = true) :
    spelled whole = ⟨Decimal.ofDigitChars whole, 0⟩ := by
  simp [spelled, List.takeWhile_eq_self_iff.mpr digits, List.dropWhile_eq_nil_iff.mpr digits]

theorem spelledPoint (fraction : List Char) (digits : ∀ c ∈ whole, isDigit c = true) :
    spelled (whole ++ '.' :: fraction) =
      ⟨Decimal.ofDigitChars (whole ++ fraction), -fraction.length⟩ := by
  simp [spelled, takeWhileDigits fraction digits, dropWhileDigits fraction digits]

theorem decimalSpelled (h : NumberSpelling s) : decimal? s = some (spelled s) := by
  cases h with
  | digits _ some digits =>
    simp [decimal?, spelled, List.takeWhile_eq_self_iff.mpr digits,
      List.dropWhile_eq_nil_iff.mpr digits, exponent?, some]
  | point whole fraction some digits someMore more =>
    simp [decimal?, spelled, takeWhileDigits fraction digits, dropWhileDigits fraction digits,
      List.takeWhile_eq_self_iff.mpr more, List.dropWhile_eq_nil_iff.mpr more, exponent?, some]

theorem readClear (h : Clear s) : read? (String.ofList s) = signed? s := by
  unfold read?
  rw [String.toList_ofList, asciiClear fun c inside => (clearAt h inside).1]
  simp only [Option.bind_eq_bind, Option.bind_some]
  rw [trimNone fun c inside => (clearAt h inside).2.1,
    ungroupNone fun c inside => (clearAt h inside).2.2.2]
  rfl

theorem valueClear (h : Clear s) : ofValue (String.ofList s) = (signed? s).getD .zero := by
  have ungrouped : '_' ∉ s := fun inside => (clearAt h inside).2.2.2 rfl
  have trimmed : trim s = s := trimNone fun c inside => (clearAt h inside).2.2.1
  unfold ofValue
  rw [String.toList_ofList, if_neg (by simp [ungrouped, trimmed]), readClear h]

theorem unsignedSpelled (h : NumberSpelling s) :
    unsigned? s = some (Binary64.ofDecimal (spelled s)) := by
  have value := decimalSpelled h
  obtain ⟨c, rest, rfl, first⟩ := h.head
  have letter : c.toLower ≠ 'i' ∧ c.toLower ≠ 'n' :=
    digitForall (P := fun c => c.toLower ≠ 'i' ∧ c.toLower ≠ 'n') (by decide) first
  have unnamed : ∀ x word, c.toLower ≠ x →
      String.ofList ((c :: rest).map Char.toLower) ≠ String.ofList (x :: word) := by
    intro x word other same
    rw [String.ofList_inj, List.map_cons, List.cons.injEq] at same
    exact other same.1
  unfold unsigned?
  simp only
  rw [if_neg (not_or.mpr ⟨unnamed 'i' ['n', 'f'] letter.1,
      unnamed 'i' ['n', 'f', 'i', 'n', 'i', 't', 'y'] letter.1⟩),
    if_neg (unnamed 'n' ['a', 'n'] letter.2), value]
  rfl

theorem readSpelled (h : NumberSpelling s) :
    read? (String.ofList s) = some (Binary64.ofDecimal (spelled s)) := by
  have value := unsignedSpelled h
  rw [readClear (spelledClear h)]
  obtain ⟨c, rest, rfl, first⟩ := h.head
  have unsigned : c ≠ '-' ∧ c ≠ '+' :=
    digitForall (P := fun c => c ≠ '-' ∧ c ≠ '+') (by decide) first
  rw [signed?, if_neg unsigned.1, if_neg unsigned.2, value]

end Numeral

/- A lexeme that is a run of digits and nothing else. -/
def Token.IsPlain (t : Token) : Prop := ∀ c ∈ t.lexeme.toList, isDigit c = true

/- Each number among the tokens is spelled as one. -/
def NumbersSpelled (ts : List Token) : Prop :=
  ∀ t ∈ ts, t.kind = .number → NumberSpelling t.lexeme.toList

namespace Lexer

theorem wordNotNumber (word : String) : wordKind word ≠ .number := by
  unfold wordKind
  cases Keyword.ofSpelling? word <;> nofun

theorem cutNumber {rest : List Char} {more : Nat} (h : cut c rest = .token .number more) :
    isDigit c = true ∧ more = numberLength rest := by
  unfold cut at h
  split at h
  · cases h
  · split at h
    · dsimp only at h
      split at h <;> cases h
    · split at h
      · rename_i digit
        cases h
        exact ⟨digit, rfl⟩
      · split at h
        · simp only [Cut.token.injEq] at h
          exact absurd h.1 (wordNotNumber _)
        · split at h <;> cases h

theorem scanSpelled {line : Nat} {found : List Token} (h : NumbersSpelled found) :
    NumbersSpelled (scan line found s).tokens := by
  fun_induction scan line found s with
  | case1 line found =>
    intro t inside number
    rcases List.mem_cons.mp (List.mem_reverse.mp inside) with rfl | inside
    · cases number
    · exact h t inside number
  | case2 line found c rest cutting ih => exact ih h
  | case3 line found c rest kind more cutting lexeme token ih =>
    apply ih
    intro t inside number
    rcases List.mem_cons.mp inside with rfl | inside
    · change kind = .number at number
      subst number
      obtain ⟨first, rfl⟩ := cutNumber cutting
      change NumberSpelling (String.ofList lexeme).toList
      rw [String.toList_ofList]
      exact numberCut rest first
    · exact h t inside number
  | case4 line found c rest cutting => exact fun t inside => h t (List.mem_reverse.mp inside)
  | case5 line found c rest cause other cutting => exact fun t inside => h t (List.mem_reverse.mp inside)

end Lexer

/- The tokens of a text are what a scan finds in it that meets no fault. -/
theorem tokenizeScanned {source : String} {ts : List Token} (h : tokenize source = .ok ts) :
    (Lexer.scan 1 [] source.toList).fault = none ∧ (Lexer.scan 1 [] source.toList).tokens = ts := by
  change (Lexer.scan 1 [] source.toList).result = .ok ts at h
  unfold Lexer.Scan.result at h
  split at h
  · cases h
  · rename_i whole
    cases h
    exact ⟨whole, rfl⟩

theorem tokenizeSpelled {source : String} {ts : List Token} (h : tokenize source = .ok ts) :
    NumbersSpelled ts := by
  obtain ⟨_, rfl⟩ := tokenizeScanned h
  exact Lexer.scanSpelled (by nofun)

namespace Numeral

theorem digitsKnown (digits : ∀ c ∈ s, isDigit c = true) :
    s.map digitValue? = s.map fun c => some (c.toNat - '0'.toNat) :=
  List.map_congr_left fun c inside => digitValue (digits c inside)

theorem digitsRead (digits : ∀ c ∈ s, isDigit c = true) :
    (s.map digitValue?).mapM id = some (s.map fun c => c.toNat - '0'.toNat) := by
  induction s with
  | nil => rfl
  | cons c rest ih =>
    have others := ih fun x inside => digits x (List.mem_cons_of_mem c inside)
    simp only [List.map_cons, List.mapM_cons, others, digitValue (digits c List.mem_cons_self)]
    rfl

theorem readNatPlain {s : String} (some : s.toList ≠ [])
    (digits : ∀ c ∈ s.toList, isDigit c = true) :
    readNat s = if digitLimit < s.toList.length then .error (.tooLong s.toList.length)
      else .ok (Decimal.ofDigitChars s.toList) := by
  have signs : ¬ (s.toList = [] ∨ s.toList.any (fun c => !isDigitSign c) = true) := by
    simp only [some, false_or, List.any_eq_true, not_exists, not_and, Bool.not_eq_true]
    intro c inside
    rw [digitSign (digits c inside)]
    rfl
  have known : ((s.toList.map digitValue?).takeWhile Option.isSome).length = s.toList.length := by
    rw [digitsKnown digits, List.takeWhile_eq_self_iff.mpr (by simp), List.length_map]
  have value : (s.toList.map fun c => c.toNat - '0'.toNat).foldl (fun n d => 10 * n + d) 0 =
      Decimal.ofDigitChars s.toList := by
    rw [List.foldl_map]
    rfl
  unfold readNat
  simp only
  rw [if_neg signs, known, digitsRead digits]
  simp only [value]

theorem readNatPoint {s : String} (inside : '.' ∈ s.toList) : readNat s = .error .notDigits := by
  have signs : s.toList = [] ∨ s.toList.any (fun c => !isDigitSign c) = true :=
    .inr (List.any_eq_true.mpr ⟨'.', inside, by decide⟩)
  unfold readNat
  simp only
  rw [if_pos signs]

end Numeral

/- A number token counts as a step number if it is plain and not too long, and then as the value of
its digits. -/
theorem Assembly.State.stepNumberOk {t : Token} {id : Int} (h : NumberSpelling t.lexeme.toList) :
    stepNumber t = .ok id ↔ t.IsPlain ∧ t.lexeme.toList.length ≤ Numeral.digitLimit ∧
      id = (Decimal.ofDigitChars t.lexeme.toList : Nat) := by
  unfold stepNumber
  generalize shape : t.lexeme.toList = s at h
  cases h with
  | digits _ some digits =>
    subst shape
    rw [Numeral.readNatPlain some digits]
    by_cases long : Numeral.digitLimit < t.lexeme.toList.length
    · rw [if_pos long]
      simp [Nat.not_le.mpr long]
    · rw [if_neg long]
      simp [show t.IsPlain from digits, Nat.not_lt.mp long, eq_comm (b := id)]
  | point whole fraction =>
    have inside : '.' ∈ t.lexeme.toList := by simp [shape]
    have foreign : ¬ t.IsPlain := fun plain => absurd (plain '.' inside) (by decide)
    rw [Numeral.readNatPoint inside]
    simp [foreign]

end Stepwise
