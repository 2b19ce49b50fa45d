import Stepwise.Proofs.Json.Restored

/-! What is written is ASCII, whatever the characters of a text and wherever a legible value stands. -/
namespace Stepwise.Json
open Text Decimal Reading

def Ascii (s : List Char) : Prop := ∀ c ∈ s, c.toNat < 0x80

instance (s : List Char) : Decidable (Ascii s) := List.decidableBAll (fun c : Char => c.toNat < 0x80) s

theorem Ascii.append {a b : List Char} (first : Ascii a) (second : Ascii b) : Ascii (a ++ b) :=
  fun c inside => (List.mem_append.mp inside).elim (first c) (second c)

theorem hexAscii (width n : Nat) : Ascii (hex width n) := by
  have digit : ∀ k < 16, (hexDigit k).toNat < 0x80 := by decide
  induction width generalizing n with
  | zero => exact nofun
  | succ width ih =>
    exact (ih _).append (List.forall_mem_singleton.mpr (digit _ (Nat.mod_lt n (by decide))))

theorem unitAscii (n : Nat) : Ascii (unitChars n) :=
  Ascii.append (a := ['\\', 'u']) (by decide) (hexAscii 4 n)

theorem escapeAscii (c : Char) : Ascii (escapeChars c) := by
  have both {a b : Char} (h : a.toNat < 0x80 ∧ b.toNat < 0x80) : Ascii [a, b] :=
    List.forall_mem_cons.mpr ⟨h.1, List.forall_mem_singleton.mpr h.2⟩
  unfold escapeChars
  iterate 7
    split
    · exact both (by decide)
  split
  · rename_i plain
    exact List.forall_mem_singleton.mpr (Nat.lt_succ_of_lt plain.2)
  split
  · exact unitAscii _
  · exact (unitAscii _).append (unitAscii _)

theorem stringAscii (s : String) : Ascii (stringChars s) := by
  have mark : Ascii ['"'] := by decide
  refine (mark.append fun c inside => ?_).append mark
  obtain ⟨d, _, written⟩ := List.mem_flatMap.mp inside
  exact escapeAscii d c written

theorem integerAscii (value : Int) : Ascii (toString value).toList := by
  have digits (n : Nat) : Ascii (Decimal.digitChars n) := fun c inside => by
    have digit := digitsPlain inside
    simp only [isDigit, Bool.and_eq_true, decide_eq_true_eq] at digit
    have bound : c.toNat ≤ '9'.toNat := digit.2
    exact Nat.lt_of_le_of_lt bound (by decide)
  cases value with
  | ofNat n =>
    rw [spelledNat]
    exact digits n
  | negSucc n =>
    rw [spelledNegative]
    exact Ascii.append (a := ['-']) (by decide) (digits (n + 1))

theorem gapAscii (depth : Option Nat) : Ascii (gap depth) := by
  intro c inside
  have layout := gapBlank depth c inside
  simp only [isLayout, Bool.or_eq_true, beq_iff_eq] at layout
  rcases layout with ((rfl | rfl) | rfl) | rfl <;> decide

theorem separatorAscii (depth : Option Nat) : Ascii (separator depth) := by
  cases depth with
  | none => decide
  | some depth => exact Ascii.append (a := [',']) (by decide) (gapAscii (some depth))

theorem itemsAscii {items : List Json} (each : ∀ x ∈ items, ∀ depth, Ascii (chars depth x))
    (inner : Option Nat) : Ascii (itemChars inner items) := by
  induction items with
  | nil => exact nofun
  | cons x rest ih =>
    obtain ⟨first, others⟩ := List.forall_mem_cons.mp each
    exact ((separatorAscii inner).append (first inner)).append (ih others)

theorem membersAscii {members : List (String × Json)}
    (each : ∀ m ∈ members, ∀ depth, Ascii (chars depth m.2)) (inner : Option Nat) :
    Ascii (memberChars inner members) := by
  have colon : Ascii [':', ' '] := by decide
  induction members with
  | nil => exact nofun
  | cons member rest ih =>
    obtain ⟨first, others⟩ := List.forall_mem_cons.mp each
    exact ((((separatorAscii inner).append (stringAscii member.1)).append colon).append
      (first inner)).append (ih others)

theorem Legible.ascii {v : Json} (h : v.Legible) (depth : Option Nat) : Ascii (chars depth v) := by
  have mark {a : Char} (h : a.toNat < 0x80) : Ascii [a] := List.forall_mem_singleton.mpr h
  induction h generalizing depth with
  | null => exact (by decide : Ascii ['n', 'u', 'l', 'l'])
  | bool value =>
    cases value with
    | true => exact (by decide : Ascii ['t', 'r', 'u', 'e'])
    | false => exact (by decide : Ascii ['f', 'a', 'l', 's', 'e'])
  | @integer value short => exact integerAscii value
  | string value => exact stringAscii value
  | @array items each ih =>
    cases items with
    | nil => exact (by decide : Ascii ['[', ']'])
    | cons x rest =>
      obtain ⟨first, others⟩ := List.forall_mem_cons.mp ih
      exact (((((mark (by decide)).append (gapAscii _)).append (first _)).append
        (itemsAscii others _)).append (gapAscii depth)).append (mark (by decide))
  | @object members each distinct ih =>
    cases members with
    | nil => exact (by decide : Ascii ['\x7b', '\x7d'])
    | cons member rest =>
      obtain ⟨first, others⟩ := List.forall_mem_cons.mp ih
      have colon : Ascii [':', ' '] := by decide
      exact (((((((mark (by decide)).append (gapAscii _)).append (stringAscii member.1)).append colon).append
        (first _)).append (membersAscii others _)).append (gapAscii depth)).append (mark (by decide))

end Stepwise.Json
