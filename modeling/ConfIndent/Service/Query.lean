import ConfIndent.Text.Utf8

/-!
# Queries

The part of an address behind the question mark: pairs of a name and a value,
joined by ampersands. In both, a plus stands for a space and a percent sign with
two hexadecimal digits for a byte; the bytes are read as UTF-8, with replacement
characters where they are none. A query should be written in ASCII. A byte of it
that is not stands for the character of its value and parts the text before it
from the text after it, so that percent signs on both sides never make up one
character. A pair without an equals sign has an empty value,
and empty pairs count for nothing. A percent sign that no two digits follow stands
for itself.

## Main definitions

* `Query.percentDecode`: The bytes that a text in ASCII stands for.
* `Query.decode`: The text of a name or value.
* `Query.pairs`: The names and values of a query.
-/

namespace ConfIndent.Query

open Bytes

/-- The value of a hexadecimal digit. -/
def hexValue? (b : UInt8) : Option UInt8 :=
  if 48 ≤ b ∧ b ≤ 57 then some (b - 48)
  else if 65 ≤ b ∧ b ≤ 70 then some (b - 55)
  else if 97 ≤ b ∧ b ≤ 102 then some (b - 87)
  else none

/-- Bytes with percent signs and digits replaced by the bytes they stand for. -/
def percentDecode : Bytes → Bytes
  | [] => []
  | [a] => [a]
  | [a, b] => [a, b]
  | a :: b :: c :: rest =>
    if a = 37 then
      match hexValue? b, hexValue? c with
      | some x, some y => (x * 16 + y) :: percentDecode rest
      | _, _ => a :: percentDecode (b :: c :: rest)
    else a :: percentDecode (b :: c :: rest)

/-- The byte is one of ASCII. -/
def isAscii (b : UInt8) : Bool :=
  b < 0x80

/-- The text of a run of bytes that are all of ASCII or all not. -/
def decodeRun (run : Bytes) : List Char :=
  if run.all isAscii then Utf8.decodeLossy (percentDecode run)
  else run.map fun b => Char.ofNat b.toNat

/-- The text of a name or value. -/
def decode (text : Bytes) : String :=
  let spaced := text.map fun b => if b = 43 then space else b
  String.ofList ((spaced.splitBy fun a b => isAscii a == isAscii b).flatMap decodeRun)

/-- A pair before and after its first equals sign. -/
def pair (text : Bytes) : String × String :=
  (decode (text.takeWhile (· != 61)), decode ((text.dropWhile (· != 61)).drop 1))

/-- The names and values of a query, in order. -/
def pairs (query : Bytes) : List (String × String) :=
  ((pieces 38 query).filter (· != [])).map pair

end ConfIndent.Query
