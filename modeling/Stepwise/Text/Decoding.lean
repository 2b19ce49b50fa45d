import Stepwise.Text.Quoted

/-! Bytes of a text file into characters: UTF-8, with the first fault and its place, and then every
line end as one newline. -/
namespace Stepwise.Text

inductive DecodeCause where
  | startByte | continuationByte | endOfData
  deriving DecidableEq, Repr

structure DecodeFault where
  cause : DecodeCause
  byte : UInt8
  place : Nat
  length : Nat
  deriving DecidableEq, Repr

def DecodeCause.text : DecodeCause → String
  | .startByte => "invalid start byte"
  | .continuationByte => "invalid continuation byte"
  | .endOfData => "unexpected end of data"

def DecodeFault.message (f : DecodeFault) : String :=
  let reason := f.cause.text
  if f.length = 1 then
    let shown := String.ofList (hex 2 f.byte.toNat)
    s!"'utf-8' codec can't decode byte 0x{shown} in position {f.place}: {reason}"
  else
    let last := f.place + f.length - 1
    s!"'utf-8' codec can't decode bytes in position {f.place}-{last}: {reason}"

/-- What a first byte announces: its share of the character, how many bytes follow, and the bounds
of the first of these. -/
structure Lead where
  bits : Nat
  more : Nat
  low : Nat
  high : Nat

def lead? (b : UInt8) : Option Lead :=
  let n := b.toNat
  if n < 0x80 then some ⟨n, 0, 0x80, 0xbf⟩
  else if n < 0xc2 then none
  else if n < 0xe0 then some ⟨n - 0xc0, 1, 0x80, 0xbf⟩
  else if n = 0xe0 then some ⟨0, 2, 0xa0, 0xbf⟩
  else if n = 0xed then some ⟨0xd, 2, 0x80, 0x9f⟩
  else if n < 0xf0 then some ⟨n - 0xe0, 2, 0x80, 0xbf⟩
  else if n = 0xf0 then some ⟨0, 3, 0x90, 0xbf⟩
  else if n < 0xf4 then some ⟨n - 0xf0, 3, 0x80, 0xbf⟩
  else if n = 0xf4 then some ⟨4, 3, 0x80, 0x8f⟩
  else none

def goodCount (low high : Nat) : Nat → List UInt8 → Nat
  | 0, _ => 0
  | _ + 1, [] => 0
  | count + 1, b :: rest =>
      if low ≤ b.toNat ∧ b.toNat ≤ high then goodCount 0x80 0xbf count rest + 1 else 0

def decodeFrom (place : Nat) (done : List Char) : List UInt8 → Except DecodeFault (List Char)
  | [] => .ok done.reverse
  | b :: rest =>
      match lead? b with
      | none => .error ⟨.startByte, b, place, 1⟩
      | some l =>
          let good := goodCount l.low l.high l.more rest
          if good = l.more then
            let code := (rest.take l.more).foldl (fun n c => 64 * n + c.toNat % 64) l.bits
            decodeFrom (place + 1 + l.more) (Char.ofNat code :: done) (rest.drop l.more)
          else if rest.length = good then .error ⟨.endOfData, b, place, good + 1⟩
          else .error ⟨.continuationByte, b, place, good + 1⟩
  termination_by bytes => bytes.length
  decreasing_by simp only [List.length_drop, List.length_cons]; omega

/-- Turns a carriage return, alone or before a newline, into a newline. -/
def newlinesFrom (afterReturn : Bool) : List Char → List Char
  | [] => []
  | c :: rest =>
      if c = '\r' then '\n' :: newlinesFrom true rest
      else if c = '\n' ∧ afterReturn then newlinesFrom false rest
      else c :: newlinesFrom false rest

def plainNewlines (s : List Char) : List Char := newlinesFrom false s

def decode (bytes : List UInt8) : Except DecodeFault String :=
  (decodeFrom 0 [] bytes).map fun cs => String.ofList (plainNewlines cs)

end Stepwise.Text
