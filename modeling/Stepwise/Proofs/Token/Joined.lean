import Stepwise.Proofs.Token.Relaid

/-! Texts one behind the other. Layout between two texts lies in no lexeme, so the first is scanned as
if nothing stood behind it, and the second as it is by itself, on later lines. -/
namespace Stepwise
open Text Lexer

namespace Lexer

variable {kind : TokenKind} {c d : Char} {s rest behind : List Char} {more line : Nat}
  {found : List Token}

/- What is cut off with nothing behind the text is cut off with layout behind it. -/
theorem cutBehind (cutting : cut c rest = .token kind more) (blank : isLayout d = true) :
    cut c (rest ++ d :: behind) = .token kind more := by
  obtain ⟨within, written⟩ := cutLexeme cutting
  cases quote : isQuote c with
  | true =>
    obtain ⟨body, closed, inside⟩ := written.quoted quote
    have whole : rest = body ++ c :: rest.drop more := by
      calc rest = rest.take more ++ rest.drop more := (List.take_append_drop more rest).symm
        _ = body ++ c :: rest.drop more := by rw [closed, List.append_assoc, List.singleton_append]
    rw [whole, cutQuoted quote inside] at cutting
    rw [whole, List.append_assoc, List.cons_append, cutQuoted quote inside, cutting]
  | false =>
    have whole : c :: (rest ++ d :: behind) = (c :: rest.take more) ++ (rest.drop more ++ d :: behind) := by
      rw [List.cons_append, ← List.append_assoc, List.take_append_drop]
    obtain ⟨other, size, again, long⟩ := lexemeCut written whole
    obtain ⟨_, cutOff⟩ := cutLexeme again
    have short : size ≤ rest.length := by
      refine Nat.le_of_not_lt fun further => ?_
      -- what is cut off beyond the text would hold layout
      have taken : d ∈ (rest ++ d :: behind).take size :=
        List.mem_take_iff_getElem.mpr ⟨rest.length, by simp; omega, by simp⟩
      have solid := looseSolid (cutOff.loose quote d taken)
      rw [blank] at solid
      cases solid
    rw [List.take_append_of_le_length short] at cutOff
    have parts : c :: rest = (c :: rest.take size) ++ rest.drop size := by
      rw [List.cons_append, List.take_append_drop]
    obtain ⟨same, further, first, atLeast⟩ := lexemeCut cutOff parts
    rw [cutting] at first
    cases first
    simp only [List.length_cons, List.length_take, Nat.add_le_add_iff_right] at long atLeast
    obtain rfl : size = more := by omega
    rw [again, cutOff.unique written]

/- A scan that gets to the end of a text goes on with the layout that stands behind it. -/
theorem scanBehind (ok : (scan line found s).fault = none) (blank : isLayout d = true)
    (behind : List Char) :
    ∃ ts, (scan line found s).tokens = ts ++ [.endAt (line + newlines s)] ∧
      scan line found (s ++ d :: behind) = scan (line + newlines s) ts.reverse (d :: behind) := by
  fun_induction scan line found s with
  | case1 line found => exact ⟨found.reverse, List.reverse_cons, by rw [List.reverse_reverse]; rfl⟩
  | case2 line found c rest cutting ih =>
    obtain ⟨ts, tokens, onward⟩ := ih ok
    have counted : line + newlines [c] + newlines rest = line + newlines (c :: rest) := by
      rw [Nat.add_assoc, ← newlinesAppend, List.singleton_append]
    rw [counted] at tokens onward
    refine ⟨ts, tokens, ?_⟩
    rw [List.cons_append, scanLayout (cutLayout (cutBlank cutting)), onward]
  | case3 line found c rest kind more cutting lexeme token ih =>
    obtain ⟨ts, tokens, onward⟩ := ih ok
    have counted : line + newlines lexeme + newlines (rest.drop more) = line + newlines (c :: rest) := by
      rw [Nat.add_assoc, ← newlinesAppend, List.cons_append, List.take_append_drop]
    rw [counted] at tokens onward
    have within := (cutLexeme cutting).1
    refine ⟨ts, tokens, ?_⟩
    rw [List.cons_append, scanToken (cutBehind cutting blank), List.take_append_of_le_length within,
      List.drop_append_of_le_length within]
    exact onward
  | case4 line found c rest cutting => cases ok
  | case5 line found c rest cause other cutting => cases ok

end Lexer

def LexFault.relined (g : Nat → Nat) (f : LexFault) : LexFault := { f with line := g f.line }

/- A scan that begins on a later line, behind other tokens, finds the same on later lines. -/
theorem Lexer.scanLater (k line : Nat) (found before : List Token) (s : List Char) :
    scan (line + k) (found.map (Token.relined (· + k)) ++ before) s =
      ⟨before.reverse ++ (scan line found s).tokens.map (Token.relined (· + k)),
        (scan line found s).rest, (scan line found s).line + k,
        (scan line found s).fault.map (LexFault.relined (· + k))⟩ := by
  have turned (found : List Token) : (found.map (Token.relined (· + k)) ++ before).reverse =
      before.reverse ++ found.reverse.map (Token.relined (· + k)) := by
    rw [List.reverse_append, List.map_reverse]
  fun_induction scan line found s with
  | case1 line found =>
    rw [scan]
    exact congrArg (Scan.mk · [] (line + k) none) (turned (.endAt line :: found))
  | case2 line found c rest cutting ih =>
    rw [scanLayout cutting, Nat.add_right_comm]
    exact ih
  | case3 line found c rest kind more cutting lexeme token ih =>
    rw [scanToken cutting, Nat.add_right_comm]
    exact ih
  | case4 line found c rest cutting =>
    rw [scan, cutting]
    dsimp only
    rw [turned, Nat.add_right_comm]
    rfl
  | case5 line found c rest cause other cutting =>
    cases cause with
    | unterminated => exact absurd rfl other
    | illegal x =>
      rw [scan, cutting]
      dsimp only
      rw [turned]
      rfl

/- Where a line stands once a text and a line end have been put in front. -/
def linesBehind (first : String) (line : Nat) : Nat := line + (1 + newlines first.toList)

/- Behind a text that is scanned and a line end, another text is scanned as it is by itself: to the
same tokens, or to the same fault, on later lines. -/
theorem tokenizeJoined {first : String} {ts : List Token} (scanned : tokenize first = .ok ts)
    (second : String) :
    tokenize (first ++ "\n" ++ second) =
      ((tokenize second).map fun us =>
        ts.dropLast ++ us.map (Token.relined (linesBehind first))).mapError
          (LexFault.relined (linesBehind first)) := by
  change (scan 1 [] first.toList).result = .ok ts at scanned
  unfold Scan.result at scanned
  split at scanned
  · cases scanned
  · rename_i whole
    cases scanned
    have blank : isLayout '\n' = true := by decide
    obtain ⟨front, tokens, onward⟩ := scanBehind whole blank second.toList
    have chars : (first ++ "\n" ++ second).toList = first.toList ++ '\n' :: second.toList := by
      rw [String.toList_append, String.toList_append, List.append_assoc]
      rfl
    have later := scanLater (1 + newlines first.toList) 1 [] front.reverse second.toList
    rw [List.map_nil, List.nil_append, List.reverse_reverse] at later
    change (scan 1 [] (first ++ "\n" ++ second).toList).result = _
    rw [chars, onward, scanLayout (cutLayout blank), tokens, List.dropLast_concat]
    change (scan (1 + newlines first.toList + 1) front.reverse second.toList).result =
      ((scan 1 [] second.toList).result.map _).mapError _
    rw [Nat.add_comm _ 1, later]
    unfold Scan.result
    cases (scan 1 [] second.toList).fault <;> rfl

end Stepwise
