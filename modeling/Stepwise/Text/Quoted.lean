import Stepwise.Text.Printable

/-! Text between quotation marks, on one line and with nothing invisible in it. Apostrophes mark the
text, unless it holds an apostrophe and no double mark. The mark and the backslash are written after
a backslash, and an invisible character by its code point. -/
namespace Stepwise.Text

def apostrophe : Char := '\x27'
def doubleMark : Char := '\x22'
def backslash : Char := '\x5c'

def hexDigit (n : Nat) : Char :=
  if n < 10 then Char.ofNat (48 + n) else Char.ofNat (87 + n)

def hex : Nat → Nat → List Char
  | 0, _ => []
  | width + 1, n => hex width (n / 16) ++ [hexDigit (n % 16)]

def markFor (s : List Char) : Char :=
  if apostrophe ∈ s ∧ doubleMark ∉ s then doubleMark else apostrophe

def escape (mark c : Char) : List Char :=
  if c = mark ∨ c = backslash then [backslash, c]
  else if c = '\n' then [backslash, 'n']
  else if c = '\r' then [backslash, 'r']
  else if c = '\t' then [backslash, 't']
  else if isPrintable c then [c]
  else if c.toNat < 0x100 then [backslash, 'x'] ++ hex 2 c.toNat
  else if c.toNat < 0x10000 then [backslash, 'u'] ++ hex 4 c.toNat
  else [backslash, 'U'] ++ hex 8 c.toNat

def quotedChars (s : List Char) : List Char :=
  [markFor s] ++ s.flatMap (escape (markFor s)) ++ [markFor s]

def quoted (s : String) : String := String.ofList (quotedChars s.toList)

end Stepwise.Text
