import ConfIndent.Text.Charset

/-!
# Charset Detection

The charset of a document is told by the first of these signs that is present
and that the whole document agrees with: a mark at the front, a declaration in
its text, and the bytes it is made of. A document with null bytes that is not
UTF-8 is taken for binary data, as is one in which no sign is left; neither has
a charset.

A declaration is a word such as `encoding` or `charset`, one to ten colons,
equals signs or spaces, and a name, which may stand in quotes. Only the first
part of a document is searched, and bytes outside ASCII are passed over, so that
a declaration can be found before anything is known about the charset. The first
declaration whose name is known counts.

Documents that these rules do not settle may be told apart by other means. So a detector is
any function from documents, and the rules make up one of them.

## Main definitions

* `Detector`: A way of telling charsets.
* `Declaration.names`: The names declared in a text, in order.
* `Declaration.charset?`: The charset a document declares.
* `detect`: The charset of a document by these rules.
-/

namespace ConfIndent

open Bytes

/-- A way of telling the charsets of documents. It may have no answer. -/
abbrev Detector := Bytes → Option Charset

namespace Declaration

/-- The number of bytes of a document that are searched. -/
def searchLength : Nat := 8192

/-- The greatest number of separators between the word and the name. -/
def maxSeparators : Nat := 10

/-- The words a declaration starts with. A word that ends in another is listed
    first. -/
def keywords : List Bytes :=
  [ofAscii "encoding", ofAscii "charset", ofAscii "coding"]

/-- The letter in lower case; other bytes are left alone. -/
def lower (b : UInt8) : UInt8 :=
  if 65 ≤ b ∧ b ≤ 90 then b + 32 else b

/-- Colons, equals signs and spaces separate the word from the name. -/
def isSeparator (b : UInt8) : Bool :=
  b == 58 || b == 61 || b == 32

/-- A single or a double quote. -/
def isQuote (b : UInt8) : Bool :=
  b == 34 || b == 39

/-- Names are made of letters, digits, hyphens and underscores. -/
def isNameByte (b : UInt8) : Bool :=
  (97 ≤ lower b && lower b ≤ 122) || (48 ≤ b && b ≤ 57) || b == 45 || b == 95

/-- What follows the front part, compared without regard to case. -/
def dropWord (word text : Bytes) : Option Bytes :=
  if text.length < word.length then none
  else if (text.take word.length).map lower = word then some (text.drop word.length)
  else none

/-- What follows at most one quote. -/
def dropQuote : Bytes → Bytes
  | [] => []
  | b :: rest => if isQuote b then rest else b :: rest

/-- The name in a declaration after its word, and what follows it. -/
def name? (text : Bytes) : Option (Bytes × Bytes) :=
  let separators := (text.takeWhile isSeparator).length
  let quoted := dropQuote (text.dropWhile isSeparator)
  let name := quoted.takeWhile isNameByte
  if separators = 0 ∨ maxSeparators < separators ∨ name = [] then none
  else some (name, dropQuote (quoted.dropWhile isNameByte))

/-- The declaration at the front of a text: its name, and the text after it. -/
def atFront? (text : Bytes) : Option (Bytes × Bytes) :=
  keywords.findSome? fun word => (dropWord word text).bind name?

/-- The names declared in a text from left to right. The search goes on behind
    each declaration; `skip` counts the bytes still to be passed over. -/
def namesAfter : Nat → Bytes → List Bytes
  | _, [] => []
  | skip + 1, _ :: rest => namesAfter skip rest
  | 0, b :: rest =>
    match atFront? (b :: rest) with
    | none => namesAfter 0 rest
    | some (name, after) => name :: namesAfter (rest.length - after.length) rest

/-- The names declared in a text, in lower case and with underscores for
    hyphens. -/
def names (text : Bytes) : List Bytes :=
  (namesAfter 0 text).map fun name => name.map fun b => if b == 45 then 95 else lower b

/-- The names that a declaration may use. -/
def known : List (Bytes × Charset) :=
  [("utf_8", .utf8), ("utf8", .utf8), ("u8", .utf8), ("latin_1", .latin1), ("latin1", .latin1),
    ("iso_8859_1", .latin1), ("iso8859_1", .latin1), ("l1", .latin1), ("cp1252", .windows1252),
    ("windows_1252", .windows1252), ("ascii", .ascii), ("us_ascii", .ascii)].map
      fun (name, charset) => (ofAscii name, charset)

/-- The charset that a document declares. -/
def charset? (document : Bytes) : Option Charset :=
  (names ((document.take searchLength).filter (· < 0x80))).findSome? fun name =>
    known.lookup name

end Declaration

/-- The document can be read strictly in the charset. -/
def Charset.accepts (charset : Charset) (document : Bytes) : Bool :=
  (charset.decode? document).isSome

/-- The charset that a mark at the front tells. The marks of units of four bytes
    come first, since one of them begins with a mark of units of two. -/
def markedCharset? (document : Bytes) : Option Charset :=
  if Charset.utf8Mark.isPrefixOf document && Charset.utf8.accepts document then some .utf8
  else if (Utf32.marked? document).isSome && Charset.utf32.accepts document then some .utf32
  else if (Utf16.marked? document).isSome && Charset.utf16.accepts document then some .utf16
  else none

/-- The charset of a document, if any sign tells it. -/
def detect (document : Bytes) : Option Charset :=
  if document = [] then some .utf8
  else
    match markedCharset? document with
    | some charset => some charset
    | none =>
      if 0 ∈ document ∧ ¬ Charset.utf8.accepts document then none
      else
        match (Declaration.charset? document).filter (·.accepts document) with
        | some charset => some charset
        | none =>
          if Charset.ascii.accepts document then some .ascii
          else if Charset.utf8.accepts document then some .utf8
          else none

end ConfIndent
