import Mathlib.Tactic.ByContra
import Stepwise.Proofs.Decimal
import Stepwise.Proofs.Json.Strings

/-! Values that have been written are read back: all that hold no fractional number, no integer of more
digits than one is read from, and no member name twice. The layout between the parts is skipped, and no
part begins with any. -/
namespace Stepwise.Json
open Text Reading Decimal

/- Nothing that goes on with a number. -/
def Parted (rest : List Char) : Prop :=
  ∀ c ∈ rest.head?, isDigit c = false ∧ c ≠ '.' ∧ c ≠ 'e' ∧ c ≠ 'E'

/- A value of which all is read back. -/
inductive Legible : Json → Prop where
  | null : Legible .null
  | bool (value : Bool) : Legible (.bool value)
  | integer {value : Int} (short : (Decimal.digitChars value.natAbs).length ≤ Numeral.digitLimit) :
      Legible (.integer value)
  | string (value : String) : Legible (.string value)
  | array {items : List Json} (each : ∀ x ∈ items, Legible x) : Legible (.array items)
  | object {members : List (String × Json)} (each : ∀ member ∈ members, Legible member.2)
      (distinct : (members.map Prod.fst).Nodup) : Legible (.object members)

/-! Integers. -/

theorem digitsRun (n : Nat) {rest : List Char} (parted : Parted rest) :
    (Decimal.digitChars n ++ rest).takeWhile isDigit = Decimal.digitChars n := by
  have behind : rest.takeWhile isDigit = [] := by
    cases rest with
    | nil => rfl
    | cons c rest => rw [List.takeWhile_cons_of_neg (by simp [(parted c rfl).1])]
  rw [List.takeWhile_append_of_pos fun c inside => digitsPlain inside, behind, List.append_nil]

/- The digits that an integer is read from: one zero, or all of them. -/
theorem digitsTaken (n : Nat) {rest : List Char} (parted : Parted rest) :
    (if (Decimal.digitChars n ++ rest).head? = some '0' then ['0']
      else (Decimal.digitChars n ++ rest).takeWhile isDigit) = Decimal.digitChars n := by
  rw [digitsRun n parted]
  split
  · rename_i zero
    rw [digitsFirst] at zero
    have none_ : n = 0 := by
      by_contra other
      exact digitsHead other zero
    subst none_
    rfl
  · rfl

/- Behind its sign, an integer is read to the end of its digits. -/
theorem numberRead {s : List Char} {negative : Bool} {n : Nat}
    (short : (Decimal.digitChars n).length ≤ Numeral.digitLimit) {rest : List Char}
    (parted : Parted rest) (sign : (s.head? == some '-') = negative)
    (body : (if negative then s.drop 1 else s) = Decimal.digitChars n ++ rest) :
    Reading.number s = Except.ok (.integer (signed negative n), rest) := by
  have point : rest.head? ≠ some '.' := fun h => (parted _ h).2.1 rfl
  have power : ¬ (rest.head? = some 'e' ∨ rest.head? = some 'E') := by
    rintro (h | h)
    · exact (parted _ h).2.2.1 rfl
    · exact (parted _ h).2.2.2 rfl
  have behind : (Decimal.digitChars n ++ rest).drop (Decimal.digitChars n).length = rest :=
    List.drop_left
  simp only [Reading.number, sign, body, digitsTaken n parted, behind, if_neg point, if_neg power,
    if_neg (digitsSome n), if_true, and_self, digitsValue, if_neg (Nat.not_lt.mpr short)]

theorem integerRead {value : Int}
    (short : (Decimal.digitChars value.natAbs).length ≤ Numeral.digitLimit) {rest : List Char}
    (parted : Parted rest) :
    Reading.number ((toString value).toList ++ rest) = Except.ok (.integer value, rest) := by
  cases value with
  | ofNat n =>
    have unsigned : ((Decimal.digitChars n ++ rest).head? == some '-') = false := by
      obtain ⟨c, more, digits, digit⟩ := digitsBegin n
      rw [digits, List.cons_append, List.head?_cons, beq_eq_false_iff_ne]
      rintro minus
      cases minus
      cases digit
    rw [spelledNat]
    exact numberRead short parted unsigned rfl
  | negSucc n =>
    rw [spelledNegative]
    exact numberRead (n := n + 1) short parted rfl rfl

/- An integer is none of the words for numbers. -/
theorem integerNoWord (value : Int) (rest : List Char) :
    word? ((toString value).toList ++ rest) = none := by
  have apart {c : Char} (digit : isDigit c = true) (d : Char) (other : isDigit d = false) : d ≠ c := by
    rintro rfl
    rw [digit] at other
    cases other
  cases value with
  | ofNat n =>
    obtain ⟨c, more, digits, digit⟩ := digitsBegin n
    rw [spelledNat, digits]
    simp [word?, words, apart digit 'n' rfl, apart digit 't' rfl, apart digit 'f' rfl,
      apart digit 'N' rfl, apart digit 'I' rfl, apart digit '-' rfl]
  | negSucc n =>
    obtain ⟨c, more, digits, digit⟩ := digitsBegin (n + 1)
    rw [spelledNegative, digits]
    simp [word?, words, apart digit 'I' rfl]

/- The first character of an integer. -/
theorem integerBegins (value : Int) :
    ∃ c rest, (toString value).toList = c :: rest ∧ (isDigit c = true ∨ c = '-') := by
  cases value with
  | ofNat n =>
    obtain ⟨c, more, digits, digit⟩ := digitsBegin n
    exact ⟨c, more, (spelledNat n).trans digits, .inl digit⟩
  | negSucc n => exact ⟨'-', _, spelledNegative n, .inr rfl⟩

/-! Layout and first characters. -/

def Blank (gap : List Char) : Prop := ∀ c ∈ gap, isLayout c = true

theorem skipBlank {blank rest : List Char} (h : Blank blank) : skip (blank ++ rest) = skip rest := by
  unfold skip
  rw [List.dropWhile_append_of_pos h]

theorem skipSolid {c : Char} {rest : List Char} (h : isLayout c = false) :
    skip (c :: rest) = c :: rest := by
  rw [skip, List.dropWhile_cons_of_neg (by simp [h])]

theorem gapBlank (depth : Option Nat) : Blank (gap depth) := by
  cases depth with
  | none => exact nofun
  | some depth =>
    intro c inside
    rcases List.mem_cons.mp inside with rfl | space
    · rfl
    · rw [List.eq_of_mem_replicate space]
      rfl

theorem partedSolid {c : Char} (plain : isDigit c = false ∧ c ≠ '.' ∧ c ≠ 'e' ∧ c ≠ 'E')
    (rest : List Char) : Parted (c :: rest) := by
  intro d first
  cases first
  exact plain

theorem layoutPlain {c : Char} (h : isLayout c = true) :
    isDigit c = false ∧ c ≠ '.' ∧ c ≠ 'e' ∧ c ≠ 'E' := by
  simp only [isLayout, Bool.or_eq_true, beq_iff_eq] at h
  rcases h with ((rfl | rfl) | rfl) | rfl <;> decide

theorem partedBlank {blank rest : List Char} {c : Char} (h : Blank blank)
    (plain : isDigit c = false ∧ c ≠ '.' ∧ c ≠ 'e' ∧ c ≠ 'E') : Parted (blank ++ c :: rest) := by
  cases blank with
  | nil => exact partedSolid plain rest
  | cons b more => exact partedSolid (layoutPlain (h b List.mem_cons_self)) _

/- What stands behind the comma between two parts. -/
def between : Option Nat → List Char
  | none => [' ']
  | some depth => gap (some depth)

theorem separatorComma (depth : Option Nat) : separator depth = ',' :: between depth := by
  cases depth <;> rfl

theorem betweenBlank (depth : Option Nat) : Blank (between depth) := by
  cases depth with
  | none => intro c inside; rw [List.mem_singleton.mp inside]; rfl
  | some depth => exact gapBlank (some depth)

theorem digitSolid {c : Char} (h : isDigit c = true ∨ c = '-') :
    isLayout c = false ∧ c ≠ ']' ∧ c ≠ '\ufeff' ∧ c ≠ '"' ∧ c ≠ '\x7b' ∧ c ≠ '[' := by
  rcases h with digit | rfl
  · refine ⟨?_, ?_, ?_, ?_, ?_, ?_⟩
    · rw [isLayout, Bool.eq_false_iff]
      intro layout
      simp only [Bool.or_eq_true, beq_iff_eq] at layout
      rcases layout with ((rfl | rfl) | rfl) | rfl <;> cases digit
    all_goals rintro rfl; cases digit
  · decide

/- A value begins with no layout, with no mark of byte order and not with the end of a list. -/
theorem Legible.begins {value : Json} (h : value.Legible) (depth : Option Nat) :
    ∃ c rest, chars depth value = c :: rest ∧ isLayout c = false ∧ c ≠ ']' ∧ c ≠ '\ufeff' := by
  cases h with
  | null => exact ⟨_, _, rfl, rfl, by decide, by decide⟩
  | bool value => cases value <;> exact ⟨_, _, rfl, rfl, by decide, by decide⟩
  | @integer value short =>
    obtain ⟨c, rest, spelled, first⟩ := integerBegins value
    obtain ⟨solid, bracket, order, _⟩ := digitSolid first
    exact ⟨c, rest, spelled, solid, bracket, order⟩
  | string value => exact ⟨_, _, rfl, rfl, by decide, by decide⟩
  | @array items each => cases items <;> exact ⟨_, _, rfl, rfl, by decide, by decide⟩
  | @object members each distinct =>
    cases members <;> exact ⟨_, _, rfl, rfl, by decide, by decide⟩

/-! Values. -/

/- A value is read back from wherever it has been written, with fuel for its characters. -/
def Restored (v : Json) : Prop := ∀ depth fuel rest, (chars depth v).length ≤ fuel → Parted rest →
  Reading.value fuel (chars depth v ++ rest) = Except.ok (v, rest)

theorem wordRestored {v : Json} {c : Char} {more : List Char} (spelled : ∀ depth, chars depth v = c :: more)
    (plain : c ≠ '"' ∧ c ≠ '\x7b' ∧ c ≠ '[')
    (found : ∀ rest, word? (c :: (more ++ rest)) = some (v, rest)) : v.Restored := by
  intro depth fuel rest room _
  rw [spelled] at room ⊢
  cases fuel with
  | zero => cases room
  | succ fuel =>
    rw [List.cons_append, value, if_neg plain.1, if_neg plain.2.1, if_neg plain.2.2, found]

theorem integerRestored {number : Int}
    (short : (Decimal.digitChars number.natAbs).length ≤ Numeral.digitLimit) :
    (Json.integer number).Restored := by
  intro depth fuel rest room parted
  have read := integerRead short parted
  have none_ := integerNoWord number rest
  obtain ⟨c, more, spelled, first⟩ := integerBegins number
  obtain ⟨_, _, _, mark, brace, bracket⟩ := digitSolid first
  change (toString number).toList.length ≤ fuel at room
  change Reading.value fuel ((toString number).toList ++ rest) = _
  rw [spelled] at room read none_ ⊢
  cases fuel with
  | zero => cases room
  | succ fuel =>
    rw [List.cons_append] at read none_ ⊢
    rw [value, if_neg mark, if_neg brace, if_neg bracket, none_]
    exact read

theorem stringRestored (text : String) : (Json.string text).Restored := by
  intro depth fuel rest room parted
  have spelled : chars depth (.string text) ++ rest = '"' :: (text.toList.flatMap escapeChars ++
      '"' :: rest) := by
    simp [chars, stringChars]
  cases fuel with
  | zero => cases room
  | succ fuel =>
    rw [spelled, value, if_pos rfl, textRead, List.reverse_nil, List.nil_append, String.ofList_toList]
    rfl

theorem skipBegun {v : Json} (h : v.Legible) {blank : List Char} (layout : Blank blank)
    (depth : Option Nat) (rest : List Char) :
    skip (blank ++ (chars depth v ++ rest)) = chars depth v ++ rest := by
  obtain ⟨c, more, begun, solid, _⟩ := h.begins depth
  rw [skipBlank layout, begun, List.cons_append, skipSolid solid]

/- The items of a list, from the first one on, are read back in turn. -/
theorem itemsRead {xs : List Json} {x : Json} (each : ∀ y ∈ x :: xs, y.Legible ∧ y.Restored)
    {inner : Option Nat} {blank rest : List Char} (layout : Blank blank) {done : List Json} {fuel : Nat}
    (room : (chars inner x ++ itemChars inner xs).length < fuel) :
    items fuel done (chars inner x ++ (itemChars inner xs ++ (blank ++ ']' :: rest))) =
      Except.ok (.array (done.reverse ++ x :: xs), rest) := by
  induction xs generalizing x done fuel with
  | nil =>
    obtain ⟨fuel, rfl⟩ := Nat.exists_eq_add_one_of_ne_zero (Nat.ne_zero_of_lt room)
    have closing : Parted (blank ++ ']' :: rest) := partedBlank layout (by decide)
    have read := (each x List.mem_cons_self).2 inner fuel _ (by simp [itemChars] at room; omega) closing
    rw [itemChars, List.nil_append, items, read]
    simp only [bind, Except.bind, skipBlank layout, skipSolid (c := ']') rfl, if_true,
      List.reverse_cons]
  | cons y ys ih =>
    obtain ⟨fuel, rfl⟩ := Nat.exists_eq_add_one_of_ne_zero (Nat.ne_zero_of_lt room)
    obtain ⟨first, others⟩ := List.forall_mem_cons.mp each
    have spelled : itemChars inner (y :: ys) =
        ',' :: (between inner ++ (chars inner y ++ itemChars inner ys)) := by
      rw [itemChars, separatorComma, List.cons_append, List.cons_append, List.append_assoc]
    rw [spelled, List.length_append, List.length_cons, List.length_append] at room
    have behind := @ih y others (x :: done) fuel (by omega)
    have comma : ∀ rest, Parted (',' :: rest) := partedSolid (by decide)
    rw [spelled, List.cons_append, items, first.2 inner fuel _ (by omega) (comma _)]
    simp only [bind, Except.bind, skipSolid (c := ',') rfl, if_true,
      if_neg (show ¬ ',' = ']' by decide), List.append_assoc,
      skipBegun (others y List.mem_cons_self).1 (betweenBlank inner), behind, List.reverse_cons,
      List.nil_append, List.cons_append]

theorem putMemberNew {name : String} {done : List (String × Json)} (fresh : name ∉ done.map Prod.fst)
    (value : Json) : putMember name value done = done ++ [(name, value)] := by
  induction done with
  | nil => rfl
  | cons member rest ih =>
    simp only [List.map_cons, List.mem_cons, not_or] at fresh
    rw [putMember, if_neg (Ne.symm fresh.1), ih fresh.2, List.cons_append]

theorem putMemberNext {name : String} {value : Json} {done rest : List (String × Json)}
    (distinct : ((done ++ (name, value) :: rest).map Prod.fst).Nodup) :
    putMember name value done = done ++ [(name, value)] := by
  rw [List.map_append, List.nodup_append] at distinct
  exact putMemberNew (fun known => distinct.2.2 name known name List.mem_cons_self rfl) value

/- One member is read up to what stands behind its value. -/
theorem memberRead {name : String} {x : Json} (legible : x.Legible) (restored : x.Restored)
    {inner : Option Nat} {rest more : List Char} (parted : Parted rest) {c : Char}
    (behind : skip rest = c :: more) (done : List (String × Json)) {fuel : Nat}
    (room : (chars inner x).length ≤ fuel) :
    members (fuel + 1) done (stringChars name ++ ':' :: ' ' :: (chars inner x ++ rest)) =
      if c = '\x7d' then Except.ok (.object (putMember name x done), more)
      else if c = ',' then members fuel (putMember name x done) (skip more)
      else Except.error ⟨.commaExpected, c :: more⟩ := by
  have spelled : ∀ more, stringChars name ++ more =
      '"' :: (name.toList.flatMap escapeChars ++ '"' :: more) := by simp [stringChars]
  have space : skip (' ' :: (chars inner x ++ rest)) = chars inner x ++ rest :=
    skipBegun legible (betweenBlank none) inner rest
  rw [spelled, members, List.head?_cons, if_pos rfl, List.drop_one, List.tail_cons, textRead]
  simp only [bind, Except.bind, skipSolid (c := ':') rfl, List.head?_cons, if_true, List.drop_one,
    List.tail_cons, space, restored inner fuel _ room parted, List.reverse_nil, List.nil_append,
    String.ofList_toList, behind]

/- The members of an object, from the first one on, are read back in turn. -/
theorem membersRead {ms : List (String × Json)} {name : String} {x : Json}
    (each : ∀ member ∈ (name, x) :: ms, member.2.Legible ∧ member.2.Restored)
    {inner : Option Nat} {blank rest : List Char} (layout : Blank blank)
    {done : List (String × Json)} (distinct : ((done ++ (name, x) :: ms).map Prod.fst).Nodup)
    {fuel : Nat} (room : (chars inner x ++ memberChars inner ms).length < fuel) :
    members fuel done (stringChars name ++ ':' :: ' ' :: (chars inner x ++
      (memberChars inner ms ++ (blank ++ '\x7d' :: rest)))) =
      Except.ok (.object (done ++ (name, x) :: ms), rest) := by
  induction ms generalizing name x done fuel with
  | nil =>
    obtain ⟨fuel, rfl⟩ := Nat.exists_eq_add_one_of_ne_zero (Nat.ne_zero_of_lt room)
    obtain ⟨legible, restored⟩ : x.Legible ∧ x.Restored := each _ List.mem_cons_self
    have closing : Parted (blank ++ '\x7d' :: rest) := partedBlank layout (by decide)
    have brace : skip (blank ++ '\x7d' :: rest) = '\x7d' :: rest := skipBlank layout
    rw [memberChars, List.nil_append, memberRead legible restored closing brace done
      (by simp [memberChars] at room; omega), if_pos rfl, putMemberNext distinct]
  | cons m ms ih =>
    obtain ⟨fuel, rfl⟩ := Nat.exists_eq_add_one_of_ne_zero (Nat.ne_zero_of_lt room)
    obtain ⟨legible, restored⟩ : x.Legible ∧ x.Restored := each _ List.mem_cons_self
    obtain ⟨other, y⟩ := m
    have spelled : memberChars inner ((other, y) :: ms) = ',' :: (between inner ++
        (stringChars other ++ ':' :: ' ' :: (chars inner y ++ memberChars inner ms))) := by
      rw [memberChars, separatorComma]
      simp
    have mark : ∀ more, skip (between inner ++ (stringChars other ++ more)) = stringChars other ++ more :=
      fun more => skipBlank (betweenBlank inner)
    have comma : ∀ rest, Parted (',' :: rest) := partedSolid (by decide)
    have later : ((done ++ [(name, x)] ++ (other, y) :: ms).map Prod.fst).Nodup := by
      rw [List.append_assoc]
      exact distinct
    rw [spelled] at room ⊢
    simp only [List.length_append, List.length_cons] at room
    have behind := @ih other y (fun member inside => each member (List.mem_cons_of_mem _ inside))
      (done ++ [(name, x)]) later fuel (by rw [List.length_append]; omega)
    rw [List.cons_append, memberRead legible restored (comma _) (skipSolid (c := ',') rfl) done (by omega),
      if_neg (by decide), if_pos rfl, putMemberNext distinct]
    simp only [List.append_assoc, mark, List.cons_append] at behind ⊢
    exact behind

theorem arrayRestored {items : List Json} (each : ∀ x ∈ items, x.Legible ∧ x.Restored) :
    (Json.array items).Restored := by
  intro depth fuel rest room _
  cases fuel with
  | zero => cases items <;> cases room
  | succ fuel =>
    cases items with
    | nil =>
      change Reading.value (fuel + 1) ('[' :: ']' :: rest) = _
      rw [value, if_neg (by decide), if_neg (by decide), if_pos rfl, skipSolid (c := ']') rfl,
        List.head?_cons, if_pos rfl]
      rfl
    | cons x xs =>
      have spelled : chars depth (.array (x :: xs)) ++ rest = '[' :: (gap (depth.map (· + 1)) ++
          (chars (depth.map (· + 1)) x ++ (itemChars (depth.map (· + 1)) xs ++
            (gap depth ++ ']' :: rest)))) := by
        simp [chars]
      obtain ⟨c, more, begun, _, noEnd, _⟩ := (each x List.mem_cons_self).1.begins (depth.map (· + 1))
      have enough : (chars (depth.map (· + 1)) x ++ itemChars (depth.map (· + 1)) xs).length < fuel := by
        simp only [chars, List.length_append, List.length_cons, List.length_nil] at room ⊢
        omega
      rw [spelled, value, if_neg (by decide), if_neg (by decide), if_pos rfl,
        skipBegun (each x List.mem_cons_self).1 (gapBlank _), if_neg (by simp [begun, noEnd]),
        itemsRead each (gapBlank depth) enough]
      rfl

theorem objectRestored {members : List (String × Json)}
    (each : ∀ member ∈ members, member.2.Legible ∧ member.2.Restored)
    (distinct : (members.map Prod.fst).Nodup) : (Json.object members).Restored := by
  intro depth fuel rest room _
  cases fuel with
  | zero => cases members <;> cases room
  | succ fuel =>
    cases members with
    | nil =>
      change Reading.value (fuel + 1) ('\x7b' :: '\x7d' :: rest) = _
      rw [value, if_neg (by decide), if_pos rfl, skipSolid (c := '\x7d') rfl, List.head?_cons,
        if_pos rfl]
      rfl
    | cons member ms =>
      obtain ⟨name, x⟩ := member
      have spelled : chars depth (.object ((name, x) :: ms)) ++ rest = '\x7b' ::
          (gap (depth.map (· + 1)) ++ (stringChars name ++ ':' :: ' ' ::
            (chars (depth.map (· + 1)) x ++ (memberChars (depth.map (· + 1)) ms ++
              (gap depth ++ '\x7d' :: rest))))) := by
        simp [chars]
      have enough : (chars (depth.map (· + 1)) x ++ memberChars (depth.map (· + 1)) ms).length < fuel := by
        simp only [chars, List.length_append, List.length_cons, List.length_nil] at room ⊢
        omega
      have mark : ∀ more, skip (gap (depth.map (· + 1)) ++ (stringChars name ++ more)) =
          stringChars name ++ more := fun more => skipBlank (gapBlank _)
      have noEnd : ∀ more, ¬ (stringChars name ++ more).head? = some '\x7d' := by
        simp [stringChars]
      rw [spelled, value, if_neg (by decide), if_pos rfl, mark, if_neg (noEnd _),
        membersRead each (gapBlank depth) distinct enough]
      rfl

/- Every legible value is read back, wherever it stands. -/
theorem Legible.restored {v : Json} (h : v.Legible) : v.Restored := by
  induction h with
  | null => exact wordRestored (fun _ => rfl) (by decide) fun _ => rfl
  | bool value =>
    cases value with
    | true => exact wordRestored (fun _ => rfl) (by decide) fun _ => rfl
    | false => exact wordRestored (fun _ => rfl) (by decide) fun _ => rfl
  | integer short => exact integerRestored short
  | string text => exact stringRestored text
  | array each ih => exact arrayRestored fun x inside => ⟨each x inside, ih x inside⟩
  | object each distinct ih =>
    exact objectRestored (fun member inside => ⟨each member inside, ih member inside⟩) distinct

/- A legible value that is written, with layout behind it, is the value of the text. -/
theorem readWritten {v : Json} (h : v.Legible) (depth : Option Nat) {blank : List Char}
    (layout : Blank blank) : read (String.ofList (chars depth v ++ blank)) = Except.ok v := by
  obtain ⟨c, more, begun, solid, _, order⟩ := h.begins depth
  have parted : Parted blank := by
    cases blank with
    | nil => exact nofun
    | cons b rest => exact partedSolid (layoutPlain (layout b List.mem_cons_self)) rest
  have front : skip (chars depth v ++ blank) = chars depth v ++ blank := by
    rw [begun, List.cons_append, skipSolid solid]
  have back : skip blank = [] := by
    have dropped : skip (blank ++ []) = skip [] := skipBlank layout
    rwa [List.append_nil] at dropped
  have whole_ : whole (chars depth v ++ blank) = Except.ok v := by
    rw [whole, if_neg (by simp [begun, order]), front,
      h.restored depth _ blank (by rw [List.length_append]; omega) parted]
    simp only [bind, Except.bind, back, if_true]
  rw [read, String.toList_ofList, whole_]
  rfl

end Stepwise.Json
