import Zmtp.Text.Combining
import Zmtp.Text.Ignorable
import Zmtp.Text.Unprintable

namespace Zmtp.Quoted

/-- Whether a character is written by its code point, since it would not be seen or would change the
look of the character before it. -/
def isHidden (c : Char) : Bool :=
  isCombining c || isIgnorable c || isUnprintable c

/-- How a character stands between double quotes. -/
def encodeChar (c : Char) : List Char :=
  if c = '"' ∨ c = '\\' then ['\\', c]
  else if c = '\t' then ['\\', 't']
  else if c = '\n' then ['\\', 'n']
  else if c = '\r' then ['\\', 'r']
  else if c = '\x00' then ['\\', '0']
  else if isHidden c then
    ['\\', 'u', Char.ofNat 0x7b] ++ Nat.toDigits 16 c.toNat ++ [Char.ofNat 0x7d]
  else [c]

/-- The text between double quotes, on one line. -/
def encode (s : String) : String :=
  String.ofList ('"' :: s.toList.flatMap encodeChar ++ ['"'])

end Zmtp.Quoted
