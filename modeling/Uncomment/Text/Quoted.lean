/-
# Quoted texts

A text in double quotes, for a log or a message, in which every character that would
not be seen, or would end the text early, is written as an escape: a few by a letter,
all others by their code point in braces.

Key definitions: `escapeChar`, `quoted`.
-/
import Uncomment.Text.Printable

namespace Uncomment.Text

/-- A code point in hexadecimal digits, as many as it needs. -/
def hexDigits (n : Nat) : List Char := Nat.toDigits 16 n

/-- A character inside double quotes. -/
def escapeChar (c : Char) : List Char :=
  if c = '\x00' then ['\\', '0']
  else if c = '\t' then ['\\', 't']
  else if c = '\r' then ['\\', 'r']
  else if c = '\n' then ['\\', 'n']
  else if c = '\\' ∨ c = '\x22' then ['\\', c]
  else if isPrintable c then [c]
  else ['\\', 'u', '{'] ++ hexDigits c.toNat ++ ['}']

/-- A text in double quotes. -/
def quoted (text : String) : String :=
  String.ofList ('\x22' :: text.toList.flatMap escapeChar ++ ['\x22'])

end Uncomment.Text
