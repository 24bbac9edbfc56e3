import OpenAddressing.Text.Extending
import OpenAddressing.Text.Unprintable

/-!
# Quoted text

A text is shown between double quotes. The quote, the backslash and every character
that does not show on its own are written as escapes; everything else stands for
itself.
-/

namespace OpenAddressing.Text

/-- The hexadecimal digit of a number below sixteen. -/
def hexDigit (d : Nat) : Char := if d < 10 then Char.ofNat (48 + d) else Char.ofNat (87 + d)

/-- The `width` lowest hexadecimal digits of a number. -/
def hex : (width n : Nat) → List Char
  | 0, _ => []
  | width + 1, n => hex width (n / 16) ++ [hexDigit (n % 16)]

/-- How many hexadecimal digits a number has. -/
def hexWidth (n : Nat) : Nat := Nat.log2 n / 4 + 1

/-- The fillers of the Hangul blocks: letters, but blank ones. -/
def blankLetters : Ranges := [(0x115f, 0x1160), (0x3164, 0x3164), (0xffa0, 0xffa0)]

/-- The character shows, and shows apart from the one before it. -/
def isPrintable (c : Char) : Bool :=
  !(unprintable.has c.toNat || extending.has c.toNat || blankLetters.has c.toNat)

/-- A character as it stands between quotes. -/
def escape (c : Char) : List Char :=
  if c = '"' then ['\\', '"']
  else if c = '\\' then ['\\', '\\']
  else if c = '\t' then ['\\', 't']
  else if c = '\n' then ['\\', 'n']
  else if c = '\r' then ['\\', 'r']
  else if c = '\x00' then ['\\', '0']
  else if isPrintable c then [c]
  else ['\\', 'u', '\x7b'] ++ hex (hexWidth c.toNat) c.toNat ++ ['\x7d']

/-- A text between quotes. -/
def quoted (s : String) : String :=
  String.ofList ('"' :: s.toList.flatMap escape ++ ['"'])

end OpenAddressing.Text
