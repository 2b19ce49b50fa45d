import Stepwise.Text.Decoding

/-! Bytes that are characters of their own. A text of nothing but these, and of no carriage return, is
decoded as it stands. -/
namespace Stepwise.Text

/- A character of one byte that stands for itself. -/
def Single (c : Char) : Prop := c.toNat < 0x80 ∧ c ≠ '\r'

def singleBytes (s : List Char) : List UInt8 := s.map fun c => UInt8.ofNat c.toNat

theorem decodeSingles {s : List Char} (singles : ∀ c ∈ s, Single c) (place : Nat) (done : List Char) :
    decodeFrom place done (singleBytes s) = .ok (done.reverse ++ s) := by
  induction s generalizing place done with
  | nil => simp [singleBytes, decodeFrom]
  | cons c rest ih =>
    obtain ⟨⟨small, _⟩, others⟩ := List.forall_mem_cons.mp singles
    have byte : (UInt8.ofNat c.toNat).toNat = c.toNat := by
      rw [UInt8.toNat_ofNat']
      omega
    have lead : lead? (UInt8.ofNat c.toNat) = some ⟨c.toNat, 0, 0x80, 0xbf⟩ := by
      simp only [lead?, byte, if_pos small]
    have behind := ih others (place + 1) (c :: done)
    simp only [singleBytes, List.map_cons] at behind ⊢
    conv => lhs; unfold decodeFrom
    simp only [lead, goodCount, if_true, List.take_zero, List.foldl_nil, List.drop_zero,
      Char.ofNat_toNat, Nat.add_zero, behind, List.reverse_cons, List.append_assoc,
      List.singleton_append]

theorem newlinesSingles {s : List Char} (singles : ∀ c ∈ s, Single c) : plainNewlines s = s := by
  unfold plainNewlines
  induction s with
  | nil => rfl
  | cons c rest ih =>
    obtain ⟨⟨_, plain⟩, others⟩ := List.forall_mem_cons.mp singles
    rw [newlinesFrom, if_neg plain, if_neg (by simp), ih others]

theorem decodeSingle {s : List Char} (singles : ∀ c ∈ s, Single c) :
    decode (singleBytes s) = .ok (String.ofList s) := by
  rw [decode, decodeSingles singles]
  exact congrArg (fun s => Except.ok (String.ofList s)) (newlinesSingles singles)

end Stepwise.Text
