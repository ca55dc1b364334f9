import ConfIndent.Text.Units
import ConfIndent.Text.Utf8

/-!
# Charsets

The ways a document may be encoded, their names, and how bytes are shown as
text.

Showing must not fail just because a document is damaged or its charset is
unknown: whatever cannot be read strictly in the charset named is read as UTF-8
with replacement characters, from the first byte on. A text is therefore never
shown partly in one charset and partly in another. The only name that is refused
is one that holds a null character, since no charset can be looked up by it.

Names are looked up without regard to case and to which characters separate
their parts.

## Main definitions

* `Charset`: A charset.
* `Charset.decode?`: A text read strictly.
* `Charset.name`: The name a charset is reported by.
* `Charset.ofName?`: The charset of a name.
* `Charset.display`: A text as it is shown.
* `displayNamed`: A text as it is shown in a charset that is only named.
-/

namespace ConfIndent

/-- The ways a document may be encoded. -/
inductive Charset where
  /-- Bytes below 80 stand for themselves and no others are allowed. -/
  | ascii
  /-- Every byte stands for the character of its value. -/
  | latin1
  /-- Latin letters with typographic marks in the range 80 to 9F. -/
  | windows1252
  /-- One to four bytes for each character. -/
  | utf8
  /-- The same, where a mark at the front is no part of the text. -/
  | utf8Marked
  /-- Units of two bytes in the order that a mark tells. -/
  | utf16
  /-- Units of two bytes in a fixed order. -/
  | utf16Ordered (order : ByteOrder)
  /-- Units of four bytes in the order that a mark tells. -/
  | utf32
  /-- Units of four bytes in a fixed order. -/
  | utf32Ordered (order : ByteOrder)
  deriving DecidableEq, Repr

namespace Charset

/-- The mark that may stand at the front of a text in UTF-8. -/
def utf8Mark : Bytes :=
  [0xEF, 0xBB, 0xBF]

/-- The characters of the bytes 80 to 9F in Windows-1252. Five are left
    undefined. -/
def windows1252Upper : List (Option Char) :=
  [some '\u20AC', none, some '\u201A', some '\u0192', some '\u201E', some '\u2026', some '\u2020',
    some '\u2021', some '\u02C6', some '\u2030', some '\u0160', some '\u2039', some '\u0152', none,
    some '\u017D', none, none, some '\u2018', some '\u2019', some '\u201C', some '\u201D',
    some '\u2022', some '\u2013', some '\u2014', some '\u02DC', some '\u2122', some '\u0161',
    some '\u203A', some '\u0153', none, some '\u017E', some '\u0178']

/-- The character of a byte in Windows-1252. -/
def windows1252Char? (b : UInt8) : Option Char :=
  if 0x80 ≤ b ∧ b < 0xA0 then (windows1252Upper[b.toNat - 0x80]?).join
  else some (Char.ofNat b.toNat)

/-- A text read strictly: a single mistake makes all of it unreadable. -/
def decode? : Charset → Bytes → Option (List Char)
  | ascii, bytes => bytes.mapM fun b => if b < 0x80 then some (Char.ofNat b.toNat) else none
  | latin1, bytes => some (bytes.map fun b => Char.ofNat b.toNat)
  | windows1252, bytes => bytes.mapM windows1252Char?
  | utf8, bytes => Utf8.decode? bytes
  | utf8Marked, bytes =>
    Utf8.decode? (if utf8Mark.isPrefixOf bytes then bytes.drop utf8Mark.length else bytes)
  | utf16, bytes => Utf16.decodeMarked? bytes
  | utf16Ordered order, bytes => Utf16.decode? order bytes
  | utf32, bytes => Utf32.decodeMarked? bytes
  | utf32Ordered order, bytes => Utf32.decode? order bytes

/-- The name a charset is reported by. -/
def name : Charset → String
  | ascii => "ascii"
  | latin1 => "latin_1"
  | windows1252 => "cp1252"
  | utf8 => "utf_8"
  | utf8Marked => "utf_8_sig"
  | utf16 => "utf_16"
  | utf16Ordered .little => "utf_16_le"
  | utf16Ordered .big => "utf_16_be"
  | utf32 => "utf_32"
  | utf32Ordered .little => "utf_32_le"
  | utf32Ordered .big => "utf_32_be"

/-- The names that charsets are reported by. -/
def names : List (String × Charset) :=
  [ascii, latin1, windows1252, utf8, utf8Marked, utf16, utf16Ordered .little, utf16Ordered .big,
    utf32, utf32Ordered .little, utf32Ordered .big].map fun c => (c.name, c)

/-- Other names of charsets, in lower case and with underscores between their
    parts. -/
def aliases : List (String × Charset) :=
  [("us_ascii", ascii), ("us", ascii), ("646", ascii), ("iso646_us", ascii),
    ("ansi_x3.4_1968", ascii), ("ansi_x3_4_1968", ascii), ("ansi_x3.4_1986", ascii),
    ("iso_646.irv_1991", ascii), ("iso_ir_6", ascii), ("cp367", ascii), ("ibm367", ascii),
    ("csascii", ascii), ("latin1", latin1), ("latin", latin1), ("l1", latin1),
    ("iso_8859_1", latin1), ("iso8859_1", latin1), ("iso8859", latin1), ("8859", latin1),
    ("iso_8859_1_1987", latin1), ("iso_ir_100", latin1), ("cp819", latin1), ("ibm819", latin1),
    ("csisolatin1", latin1), ("windows_1252", windows1252), ("1252", windows1252), ("utf8", utf8),
    ("u8", utf8), ("utf", utf8), ("utf8_ucs2", utf8), ("utf8_ucs4", utf8), ("cp65001", utf8),
    ("utf16", utf16), ("u16", utf16), ("utf_16le", utf16Ordered .little),
    ("unicodelittleunmarked", utf16Ordered .little), ("utf_16be", utf16Ordered .big),
    ("unicodebigunmarked", utf16Ordered .big), ("utf32", utf32), ("u32", utf32),
    ("utf_32le", utf32Ordered .little), ("utf_32be", utf32Ordered .big)]

/-- A name in lower case with a single underscore between its parts. Parts are
    made of letters, digits and full stops; `started` tells that a part was
    written and `parted` that a separator was met since. -/
def plainName (started parted : Bool) : List Char → List Char
  | [] => []
  | c :: rest =>
    if c.isAlphanum || c == '.' then
      (if started && parted then ['_'] else []) ++ c.toLower :: plainName true false rest
    else plainName started true rest

/-- The charset of a name, in any spelling. In an alias a full stop may stand for
    an underscore. -/
def ofName? (name : String) : Option Charset :=
  let plain := plainName false false name.toList
  (names ++ aliases).lookup (String.ofList plain) <|>
    aliases.lookup (String.ofList (plain.map fun c => if c = '.' then '_' else c))

/-- Every charset is found by the name it is reported by. -/
theorem ofName?_name (c : Charset) : ofName? c.name = some c := by
  rcases c with _ | _ | _ | _ | _ | _ | (_ | _) | _ | (_ | _) <;> rfl

/-- A text as it is shown: read strictly in its charset, or as UTF-8 with
    replacement characters if that is not possible or the charset is unknown. -/
def display (charset : Option Charset) (bytes : Bytes) : List Char :=
  (charset.bind fun c => c.decode? bytes).getD (Utf8.decodeLossy bytes)

end Charset

/-- Why a text cannot be shown. -/
inductive DisplayError where
  /-- The name of the charset holds a null character. -/
  | nullInName
  deriving DecidableEq, Repr

/-- The text of an error. -/
def DisplayError.message : DisplayError → String
  | nullInName => "embedded null character"

/-- A text as it is shown in the charset of a name. No name and an empty one
    stand for UTF-8. -/
def displayNamed (bytes : Bytes) (name : Option String) : Except DisplayError (List Char) :=
  match name with
  | none => .ok (Charset.display (some .utf8) bytes)
  | some name =>
    if name.isEmpty then .ok (Charset.display (some .utf8) bytes)
    else if '\x00' ∈ name.toList then .error .nullInName
    else .ok (Charset.display (Charset.ofName? name) bytes)

end ConfIndent
