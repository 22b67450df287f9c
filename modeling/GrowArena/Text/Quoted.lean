import GrowArena.Text.Extending
import GrowArena.Text.Unprinted

/-!
Quoted text: a string between double quotes, with the quote, the backslash and all characters
escaped that a reader could not make out. A character with a mark of its own stands for itself.
-/

namespace GrowArena.Text

def hexDigit (n : Nat) : Char :=
  if n < 10 then Char.ofNat ('0'.toNat + n) else Char.ofNat ('a'.toNat + (n - 10))

def hexadecimal (n : Nat) : List Char :=
  if _h : n < 16 then [hexDigit n] else hexadecimal (n / 16) ++ [hexDigit (n % 16)]

/-- Whether a character has a mark of its own on a page. -/
def isPlain (c : Char) : Bool :=
  !(CharSet.unprinted.contains c || CharSet.extending.contains c)

/-- One character as it stands between the quotes. -/
def escape (c : Char) : List Char :=
  if c = '"' then ['\\', '"']
  else if c = '\\' then ['\\', '\\']
  else if c = '\n' then ['\\', 'n']
  else if c = '\t' then ['\\', 't']
  else if c = '\r' then ['\\', 'r']
  else if c = '\x00' then ['\\', '0']
  else if isPlain c then [c]
  else ['\\', 'u', '\x7b'] ++ hexadecimal c.toNat ++ ['\x7d']

def quoted (text : String) : String :=
  String.ofList ('"' :: text.toList.flatMap escape ++ ['"'])

end GrowArena.Text
