import Cantilena.Text.Printable

/-!
# Quoted text

The form in which messages show a text:

* single quotes, or double quotes where the text holds a single quote and no double one;
* a backslash before the quote in use and before a backslash;
* `\n`, `\r` and `\t` by name, and every other character that is not printable by the
  hexadecimal digits of its code point: two, four or eight of them after `\x`, `\u`, `\U`.
-/

namespace Cantilena.Text

/-- The lower-case hexadecimal digit of a value below sixteen. -/
def hexDigit (n : Nat) : Char := if n < 10 then Char.ofNat (48 + n) else Char.ofNat (87 + n)

/-- The lowest `width` hexadecimal digits of a number. -/
def hexDigits : (width : Nat) → Nat → List Char
  | 0, _ => []
  | width + 1, n => hexDigits width (n / 16) ++ [hexDigit (n % 16)]

/-- The quote that encloses a text. -/
def quoteFor (s : List Char) : Char :=
  if s.contains '\'' && !s.contains '"' then '"' else '\''

/-- One character of a quoted text. -/
def quoteChar (quote c : Char) : List Char :=
  if c == quote || c == '\\' then ['\\', c]
  else if c == '\n' then ['\\', 'n']
  else if c == '\r' then ['\\', 'r']
  else if c == '\t' then ['\\', 't']
  else if isPrintable c then [c]
  else if c.toNat < 0x100 then '\\' :: 'x' :: hexDigits 2 c.toNat
  else if c.toNat < 0x10000 then '\\' :: 'u' :: hexDigits 4 c.toNat
  else '\\' :: 'U' :: hexDigits 8 c.toNat

/-- A text in quotes. -/
def quotedChars (s : List Char) : List Char :=
  let quote := quoteFor s
  quote :: s.flatMap (quoteChar quote) ++ [quote]

/-- A text in quotes, as a string. -/
def quoted (s : List Char) : String := String.ofList (quotedChars s)

/-- A string in quotes. -/
def quotedString (s : String) : String := quoted s.toList

/-- Quoted strings in brackets. -/
def quotedList (l : List String) : String :=
  "[" ++ String.intercalate ", " (l.map quotedString) ++ "]"

end Cantilena.Text
