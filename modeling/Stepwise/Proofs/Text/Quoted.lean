import Stepwise.Proofs.Json.Strings
import Stepwise.Text.Quoted

/-! Quoted text read back. The first mark tells which mark ends the text, and behind a backslash stands a
sign for the character or its code point, in two, four or eight digits. -/
namespace Stepwise.Text
open Json

/- How many digits of a code point come behind a sign. -/
def codeWidth? (sign : Char) : Option Nat :=
  if sign = 'x' then some 2
  else if sign = 'u' then some 4
  else if sign = 'U' then some 8
  else none

/- The character that a sign behind a backslash stands for, and how much behind the sign belongs to it. -/
def unescaped? (sign : Char) (rest : List Char) : Option (Char × Nat) :=
  if sign = 'n' then some ('\n', 0)
  else if sign = 'r' then some ('\r', 0)
  else if sign = 't' then some ('\t', 0)
  else match codeWidth? sign with
    | some width => (hexNumber? (rest.take width)).map fun n => (Char.ofNat n, width)
    | none => some (sign, 0)

/- Reads up to the mark, with the characters found so far, last first. -/
def bodyEnd? (mark : Char) (done : List Char) : List Char → Option (String × List Char)
  | [] => none
  | c :: rest =>
      if c = mark then some (String.ofList done.reverse, rest)
      else if c = backslash then
        match rest with
        | [] => none
        | sign :: rest =>
            match unescaped? sign rest with
            | some (d, taken) => bodyEnd? mark (d :: done) (rest.drop taken)
            | none => none
      else bodyEnd? mark (c :: done) rest
  termination_by s => s.length
  decreasing_by all_goals simp; try omega

/- The quoted text at the head of a text, and what is behind it. -/
def unquoted? : List Char → Option (String × List Char)
  | [] => none
  | mark :: rest => if mark = apostrophe ∨ mark = doubleMark then bodyEnd? mark [] rest else none

theorem bodyEndShorter {mark : Char} {done s rest : List Char} {text : String}
    (h : bodyEnd? mark done s = some (text, rest)) : rest.length < s.length := by
  fun_induction bodyEnd? mark done s with
  | case1 | case3 | case5 => cases h
  | case2 =>
    cases h
    exact Nat.lt_succ_self _
  | case4 done sign behind d taken read _ ih =>
    have shorter := ih h
    rw [List.length_drop] at shorter
    simp only [List.length_cons]
    omega
  | case6 done c rest _ _ ih => exact Nat.lt_succ_of_lt (ih h)

theorem unquotedShorter {s rest : List Char} {text : String} (h : unquoted? s = some (text, rest)) :
    rest.length < s.length := by
  cases s with
  | nil => cases h
  | cons mark s =>
    rw [unquoted?] at h
    split at h
    · exact Nat.lt_succ_of_lt (bodyEndShorter h)
    · cases h

section
variable {mark c d sign : Char} {done rest : List Char} {taken : Nat}

theorem bodyCloses : bodyEnd? mark done (mark :: rest) = some (String.ofList done.reverse, rest) := by
  unfold bodyEnd?
  rw [if_pos rfl]

theorem bodyPlain (inside : c ≠ mark) (plain : c ≠ backslash) :
    bodyEnd? mark done (c :: rest) = bodyEnd? mark (c :: done) rest := by
  conv => lhs; unfold bodyEnd?
  rw [if_neg inside, if_neg plain]

theorem bodyEscaped (quote : backslash ≠ mark) (read : unescaped? sign rest = some (d, taken)) :
    bodyEnd? mark done (backslash :: sign :: rest) = bodyEnd? mark (d :: done) (rest.drop taken) := by
  conv => lhs; unfold bodyEnd?
  rw [if_neg quote, if_pos rfl]
  dsimp only
  rw [read]

theorem bodySigned (quote : backslash ≠ mark) (read : unescaped? sign rest = some (d, 0)) :
    bodyEnd? mark done (backslash :: sign :: rest) = bodyEnd? mark (d :: done) rest :=
  bodyEscaped quote read

/- A code point that is written in so many digits is read behind its sign. -/
theorem codeRead {width : Nat} (sized : codeWidth? sign = some width)
    (code : sign ≠ 'n' ∧ sign ≠ 'r' ∧ sign ≠ 't') (small : c.toNat < Nat.pow 16 width) :
    unescaped? sign (hex width c.toNat ++ rest) = some (c, width) := by
  have digits : (hex width c.toNat ++ rest).take width = hex width c.toNat :=
    List.take_left' (hexLength width _)
  rw [unescaped?, if_neg code.1, if_neg code.2.1, if_neg code.2.2, sized]
  dsimp only
  rw [digits, hexNumberRead width small, Option.map_some, Char.ofNat_toNat]

/- What has been written of a character is read as that character. -/
theorem characterUnescaped (quote : mark = apostrophe ∨ mark = doubleMark) (done : List Char) (c : Char)
    (rest : List Char) : bodyEnd? mark done (escape mark c ++ rest) = bodyEnd? mark (c :: done) rest := by
  have slash : backslash ≠ mark := by rcases quote with rfl | rfl <;> decide
  have coded {sign : Char} {width : Nat} (sized : codeWidth? sign = some width)
      (code : sign ≠ 'n' ∧ sign ≠ 'r' ∧ sign ≠ 't') (small : c.toNat < Nat.pow 16 width) :
      bodyEnd? mark done (backslash :: sign :: (hex width c.toNat ++ rest)) =
        bodyEnd? mark (c :: done) rest := by
    rw [bodyEscaped slash (codeRead sized code small), List.drop_left' (hexLength width _)]
  unfold escape
  split
  · rename_i special
    have itself : unescaped? c rest = some (c, 0) := by
      rcases special with rfl | rfl
      · rcases quote with rfl | rfl <;> rfl
      · rfl
    exact bodySigned slash itself
  split
  · subst c; exact bodySigned slash (by rfl)
  split
  · subst c; exact bodySigned slash (by rfl)
  split
  · subst c; exact bodySigned slash (by rfl)
  split
  · rename_i special _ _ _ _
    exact bodyPlain (fun same => special (.inl same)) fun same => special (.inr same)
  split
  · rename_i small
    exact coded rfl (by decide) small
  split
  · rename_i small
    exact coded rfl (by decide) small
  · have last : c.toNat < 0x110000 := by
      have valid : c.toNat < 0xd800 ∨ 0xdfff < c.toNat ∧ c.toNat < 0x110000 := c.valid
      omega
    exact coded rfl (by decide) (Nat.lt_trans last (by decide))

theorem bodyUnescaped (quote : mark = apostrophe ∨ mark = doubleMark) (done s rest : List Char) :
    bodyEnd? mark done (s.flatMap (escape mark) ++ mark :: rest) =
      some (String.ofList (done.reverse ++ s), rest) := by
  induction s generalizing done with
  | nil => rw [List.flatMap_nil, List.nil_append, bodyCloses, List.append_nil]
  | cons c s ih =>
    rw [List.flatMap_cons, List.append_assoc, characterUnescaped quote, ih, List.reverse_cons,
      List.append_assoc, List.singleton_append]

end

/- A quoted text is read back, whatever is written behind it. -/
theorem quotedRead (s : String) (rest : List Char) :
    unquoted? (quotedChars s.toList ++ rest) = some (s, rest) := by
  have quote : markFor s.toList = apostrophe ∨ markFor s.toList = doubleMark := by
    unfold markFor
    split
    · exact .inr rfl
    · exact .inl rfl
  rw [quotedChars, List.append_assoc, List.append_assoc, List.singleton_append, List.singleton_append,
    unquoted?, if_pos quote, bodyUnescaped quote, List.reverse_nil, List.nil_append, String.ofList_toList]

end Stepwise.Text
