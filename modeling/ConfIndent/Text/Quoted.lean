import ConfIndent.Text.Printable
import ConfIndent.Text.Utf8

/-!
# Quoted Text

A text quoted for a message, so that where it starts and ends and what it holds
can be told from what is printed. Single quotes are put around it, or double
quotes if it holds single quotes and no double ones. The backslash, the quote
used, line feed, carriage return and tab are escaped by a backslash and a sign of
their own; any other character that is not printable by its number, in two, four
or eight hexadecimal digits, whichever is the least that suffices.

File names may hold bytes that are no text. Such a byte is escaped like a
character whose number is `DC00` and the byte, a number no character has.

## Main definitions

* `Quoted.strayByte`: A byte that is no text.
* `Quoted.fragments`: A file name in quotes.
* `Quoted.text`: A text in quotes.
-/

namespace ConfIndent.Quoted

/-- A hexadecimal digit. -/
def hexDigit (n : Nat) : Char :=
  Nat.digitChar (n % 16)

/-- A number in a fixed count of hexadecimal digits. -/
def hex : Nat → Nat → List Char
  | 0, _ => []
  | digits + 1, n => hex digits (n / 16) ++ [hexDigit n]

/-- A byte that is no text. -/
def strayByte (b : UInt8) : List Char :=
  ['\\', 'u', 'd', 'c'] ++ hex 2 b.toNat

/-- A character inside the quotes given. -/
def char (quote c : Char) : List Char :=
  if c = quote ∨ c = '\\' then ['\\', c]
  else if c = '\n' then ['\\', 'n']
  else if c = '\r' then ['\\', 'r']
  else if c = '\t' then ['\\', 't']
  else if isPrintable c then [c]
  else if c.toNat < 0x100 then ['\\', 'x'] ++ hex 2 c.toNat
  else if c.toNat < 0x10000 then ['\\', 'u'] ++ hex 4 c.toNat
  else ['\\', 'U'] ++ hex 8 c.toNat

/-- The quote to put around a text. -/
def quoteFor (text : List Utf8.Fragment) : Char :=
  if .char '\'' ∈ text ∧ .char '"' ∉ text then '"' else '\''

/-- A part of a file name inside the quotes given. -/
def fragment (quote : Char) : Utf8.Fragment → List Char
  | .char c => char quote c
  | .stray bytes => bytes.flatMap strayByte

/-- A file name in quotes. -/
def fragments (text : List Utf8.Fragment) : List Char :=
  quoteFor text :: text.flatMap (fragment (quoteFor text)) ++ [quoteFor text]

/-- A text in quotes. -/
def text (cs : List Char) : List Char :=
  fragments (cs.map .char)

end ConfIndent.Quoted
