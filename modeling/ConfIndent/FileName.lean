import ConfIndent.Text.Quoted

/-!
# File Names

A file is named by any string of bytes; by convention it is UTF-8, but nothing
enforces that. The name is printed into lists and patches byte by byte. Where it
is shown in a message, bytes that are no text are escaped, and where names are
put in order they are compared by the numbers of their characters, with escaped
bytes in the place their numbers give them.

A name is a path: components separated by solidi. `tidy` drops what has no effect
on most of them, namely empty components and those that stand for the directory
itself. Leading solidi are kept apart, since one or two of them make a path
absolute and more count as one. Components that lead to the parent directory stay,
since what they undo may be a link.

## Main definitions

* `FileName`: A file name.
* `FileName.display`, `FileName.quoted`: A name in a message.
* `FileName.before`: The order of names.
* `FileName.tidy`: A path without components that have no effect.
* `FileName.join`: The path of an entry of a directory.
* `FileName.endsIn`: The ending of a name.
-/

namespace ConfIndent

open Bytes

/-- A file name. -/
abbrev FileName := Bytes

namespace FileName

/-- The name that a text stands for. -/
def ofString (text : String) : FileName :=
  Utf8.encode text.toList

/-- A part of a name in a message. -/
def displayFragment : Utf8.Fragment → List Char
  | .char c => [c]
  | .stray bytes => bytes.flatMap Quoted.strayByte

/-- A name in a message. -/
def display (name : FileName) : String :=
  String.ofList ((Utf8.fragments name).flatMap displayFragment)

/-- A name in quotes. -/
def quoted (name : FileName) : String :=
  String.ofList (Quoted.fragments (Utf8.fragments name))

/-- The numbers of the characters in a part of a name. -/
def fragmentKey : Utf8.Fragment → List Nat
  | .char c => [c.toNat]
  | .stray bytes => bytes.map fun b => 0xDC00 + b.toNat

/-- The numbers of the characters of a name, where an escaped byte counts as one.
    Names are ordered by them and their endings compared. -/
def sortKey (name : FileName) : List Nat :=
  (Utf8.fragments name).flatMap fragmentKey

/-- The name stands before the other, or may do so. -/
def before (a b : FileName) : Bool :=
  !decide (sortKey b < sortKey a)

/-- Names in order. -/
def sort (names : List FileName) : List FileName :=
  names.mergeSort before

/-- The solidi that a tidy path starts with. -/
def root (path : FileName) : Bytes :=
  match (path.takeWhile (· == slash)).length with
  | 0 => []
  | 2 => [slash, slash]
  | _ => [slash]

/-- The components of a path that have an effect. -/
def components (path : FileName) : List Bytes :=
  (pieces slash path).filter fun piece => piece != [] && piece != [dot]

/-- A path without components that have no effect. One that is left without any
    is the current directory. -/
def tidy (path : FileName) : FileName :=
  match root path ++ List.intercalate [slash] (components path) with
  | [] => [dot]
  | tidied => tidied

/-- The last component of a path, or nothing if it has none. -/
def baseName (path : FileName) : FileName :=
  (components path).getLast?.getD []

/-- The path of an entry of a directory. -/
def join (directory entry : FileName) : FileName :=
  match directory.getLast? with
  | none => entry
  | some b => if b = slash then directory ++ entry else directory ++ slash :: entry

/-- The name ends in the other, character by character. -/
def endsIn (name ending : FileName) : Bool :=
  (sortKey ending).isSuffixOf (sortKey name)

/-- The name starts with a full stop, by which it asks not to be listed. -/
def isHidden (name : FileName) : Bool :=
  name.head? == some dot

end FileName

end ConfIndent
