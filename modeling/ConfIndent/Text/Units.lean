import ConfIndent.Bytes

/-!
# Code Units of Two and Four Bytes

UTF-16 and UTF-32 write text in units of two and four bytes, in one of two byte
orders. A mark at the front may tell the order: the unit `FEFF` as it looks in
that order. Reading is strict. An incomplete unit, a surrogate without its
partner and a value that is no code point make the whole text unreadable.

## Main definitions

* `ByteOrder`: Which byte of a unit comes first.
* `Utf16.decode?`, `Utf32.decode?`: The text in a known byte order.
* `Utf16.decodeMarked?`, `Utf32.decodeMarked?`: The text in the byte order its
  mark tells.
-/

namespace ConfIndent

/-- Which byte of a unit comes first. -/
inductive ByteOrder where
  /-- The least significant byte. -/
  | little
  /-- The most significant byte. -/
  | big
  deriving DecidableEq, Repr

/-- The value of the bytes of one unit. -/
def ByteOrder.value : ByteOrder → Bytes → Nat
  | .big, unit => unit.foldl (fun n b => n * 256 + b.toNat) 0
  | .little, unit => unit.foldr (fun b n => n * 256 + b.toNat) 0

namespace Utf16

/-- The units of a byte string, if it ends with a whole one. -/
def units? (order : ByteOrder) : Bytes → Option (List Nat)
  | [] => some []
  | a :: b :: rest => (units? order rest).map (order.value [a, b] :: ·)
  | [_] => none

/-- The first unit of a pair. -/
def isHigh (u : Nat) : Bool :=
  0xD800 ≤ u && u < 0xDC00

/-- The second unit of a pair. -/
def isLow (u : Nat) : Bool :=
  0xDC00 ≤ u && u < 0xE000

/-- The text that units stand for, if every surrogate has its partner. -/
def ofUnits? : List Nat → Option (List Char)
  | [] => some []
  | [u] => if isHigh u || isLow u then none else some [Char.ofNat u]
  | u :: v :: rest =>
    if isHigh u && isLow v then
      (ofUnits? rest).map (Char.ofNat (0x10000 + (u - 0xD800) * 0x400 + (v - 0xDC00)) :: ·)
    else if isHigh u || isLow u then none
    else (ofUnits? (v :: rest)).map (Char.ofNat u :: ·)

/-- The text of a byte string in a known byte order. -/
def decode? (order : ByteOrder) (bytes : Bytes) : Option (List Char) :=
  (units? order bytes).bind ofUnits?

/-- The byte order that a mark tells. -/
def marked? (bytes : Bytes) : Option ByteOrder :=
  if [0xFF, 0xFE].isPrefixOf bytes then some .little
  else if [0xFE, 0xFF].isPrefixOf bytes then some .big
  else none

/-- The text in the byte order its mark tells, without the mark. Without one the
    least significant byte comes first. -/
def decodeMarked? (bytes : Bytes) : Option (List Char) :=
  match marked? bytes with
  | some order => decode? order (bytes.drop 2)
  | none => decode? .little bytes

end Utf16

namespace Utf32

/-- The units of a byte string, if it ends with a whole one. -/
def units? (order : ByteOrder) : Bytes → Option (List Nat)
  | [] => some []
  | a :: b :: c :: d :: rest => (units? order rest).map (order.value [a, b, c, d] :: ·)
  | _ => none

/-- The character a unit stands for, if it is one. -/
def char? (u : Nat) : Option Char :=
  if h : u.isValidChar then some (Char.ofNatAux u h) else none

/-- The text of a byte string in a known byte order. -/
def decode? (order : ByteOrder) (bytes : Bytes) : Option (List Char) :=
  (units? order bytes).bind (List.mapM char?)

/-- The byte order that a mark tells. -/
def marked? (bytes : Bytes) : Option ByteOrder :=
  if [0xFF, 0xFE, 0, 0].isPrefixOf bytes then some .little
  else if [0, 0, 0xFE, 0xFF].isPrefixOf bytes then some .big
  else none

/-- The text in the byte order its mark tells, without the mark. Without one the
    least significant byte comes first. -/
def decodeMarked? (bytes : Bytes) : Option (List Char) :=
  match marked? bytes with
  | some order => decode? order (bytes.drop 4)
  | none => decode? .little bytes

end Utf32

end ConfIndent
