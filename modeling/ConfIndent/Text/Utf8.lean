import ConfIndent.Bytes

/-!
# UTF-8

A string of bytes read as UTF-8 falls into fragments: characters, and stray
bytes that are part of none. Surrogates, overlong forms and values beyond the
last code point are no characters. Stray bytes are gathered as far as they could
have been the beginning of a character, and no further, so a damaged character
counts as one mistake and never swallows what follows it.

The reader is a machine that takes one byte at a time. What it has to know
between two bytes is at most the beginning of one character. Its answer
therefore depends on what came before only through that beginning, which is why
text can be read in parts wherever a part starts with a byte that continues
nothing.

The ways of reading differ in what they make of stray bytes only. Reading
strictly refuses them, reading for display shows a replacement character, and
names keep them.

## Main definitions

* `Utf8.fragments`: The characters and stray bytes of a byte string.
* `Utf8.decode?`: The text, if no byte is stray.
* `Utf8.decodeLossy`: The text with stray bytes replaced.
* `Utf8.encode`: The bytes of a text.
-/

namespace ConfIndent.Utf8

/-- A part of a byte string as UTF-8 reads it. -/
inductive Fragment where
  /-- A character. -/
  | char (c : Char)
  /-- Bytes that belong to no character. -/
  | stray (bytes : Bytes)
  deriving DecidableEq, Repr

/-- The beginning of a character, and what is needed to complete it. -/
structure Pending where
  /-- The bytes read. -/
  read : Bytes
  /-- The value of the bits read. -/
  value : Nat
  /-- The least the next byte may be. -/
  low : UInt8
  /-- The greatest the next byte may be. -/
  high : UInt8
  /-- The number of bytes still needed after the next. -/
  owed : Nat

/-- What the first byte of a character of several bytes asks for. The range of
    the second byte keeps out overlong forms, surrogates and values beyond the
    last code point. -/
def lead? (b : UInt8) : Option Pending :=
  if 0xC2 ≤ b ∧ b ≤ 0xDF then some ⟨[b], b.toNat - 0xC0, 0x80, 0xBF, 0⟩
  else if b = 0xE0 then some ⟨[b], 0x0, 0xA0, 0xBF, 1⟩
  else if b = 0xED then some ⟨[b], 0xD, 0x80, 0x9F, 1⟩
  else if 0xE1 ≤ b ∧ b ≤ 0xEF then some ⟨[b], b.toNat - 0xE0, 0x80, 0xBF, 1⟩
  else if b = 0xF0 then some ⟨[b], 0, 0x90, 0xBF, 2⟩
  else if b = 0xF4 then some ⟨[b], 4, 0x80, 0x8F, 2⟩
  else if 0xF1 ≤ b ∧ b ≤ 0xF3 then some ⟨[b], b.toNat - 0xF0, 0x80, 0xBF, 2⟩
  else none

/-- Takes a byte where a character may begin. -/
def start (b : UInt8) : Option Pending × List Fragment :=
  if b < 0x80 then (none, [.char (Char.ofNat b.toNat)])
  else
    match lead? b with
    | some p => (some p, [])
    | none => (none, [.stray [b]])

/-- Takes a byte. One that does not continue the character begun ends it as
    stray bytes and begins anew. -/
def feed : Option Pending → UInt8 → Option Pending × List Fragment
  | none, b => start b
  | some p, b =>
    if p.low ≤ b ∧ b ≤ p.high then
      let value := p.value * 64 + b.toNat % 64
      match p.owed with
      | 0 => (none, [.char (Char.ofNat value)])
      | owed + 1 => (some ⟨p.read ++ [b], value, 0x80, 0xBF, owed⟩, [])
    else
      ((start b).1, .stray p.read :: (start b).2)

/-- Takes bytes to the end of the input, where a character begun is stray. -/
def feedAll : Option Pending → Bytes → List Fragment
  | none, [] => []
  | some p, [] => [.stray p.read]
  | state, b :: rest =>
    let next := feed state b
    next.2 ++ feedAll next.1 rest

/-- The characters and stray bytes of a byte string, in order. -/
def fragments (bytes : Bytes) : List Fragment :=
  feedAll none bytes

/-- The character a fragment is, if it is one. -/
def Fragment.char? : Fragment → Option Char
  | char c => some c
  | stray _ => none

/-- Stands for stray bytes where text is shown. -/
def replacement : Char := '\uFFFD'

/-- The text, if no byte is stray. -/
def decode? (bytes : Bytes) : Option (List Char) :=
  (fragments bytes).mapM Fragment.char?

/-- The text with one replacement character for each stretch of stray bytes. -/
def decodeLossy (bytes : Bytes) : List Char :=
  (fragments bytes).map fun f => f.char?.getD replacement

/-- The bytes of a character. -/
def encodeChar (c : Char) : Bytes :=
  let n := c.toNat
  if n < 0x80 then [n.toUInt8]
  else if n < 0x800 then [(0xC0 + n / 64).toUInt8, (0x80 + n % 64).toUInt8]
  else if n < 0x10000 then
    [(0xE0 + n / 4096).toUInt8, (0x80 + n / 64 % 64).toUInt8, (0x80 + n % 64).toUInt8]
  else
    [(0xF0 + n / 262144).toUInt8, (0x80 + n / 4096 % 64).toUInt8, (0x80 + n / 64 % 64).toUInt8,
      (0x80 + n % 64).toUInt8]

/-- The bytes of a text. -/
def encode (text : List Char) : Bytes :=
  text.flatMap encodeChar

end ConfIndent.Utf8
