/-!
# Byte Strings

Documents, file names and everything written to a stream are strings of bytes.
Nothing in the formatter depends on how a document is encoded, so bytes and not
characters are what it works on; characters only appear where text is shown to
a reader.

Lists are used rather than packed arrays: every rule of the formatter is stated
about a front part, a back part or the pieces between separators, and those are
the operations lists have laws for.

## Main definitions

* `Bytes`: A string of bytes.
* `Bytes.ofAscii`: The bytes of a literal.
* `Bytes.ofNat`: A number written in decimal digits.
* `Bytes.pieces`: The pieces between separators.

## Theorems

* `Bytes.intercalate_pieces`: Joining the pieces gives the text back.
-/

namespace ConfIndent

/-- A string of bytes. -/
abbrev Bytes := List UInt8

-- Names are looked up in lists, which finds them because equal bytes are told to be equal.
instance instLawfulBEqBytes : LawfulBEq Bytes :=
  inferInstance

namespace Bytes

/-- The bytes of a text of ASCII characters. It is applied to literals only, so
    no character is ever out of range. -/
def ofAscii (s : String) : Bytes :=
  s.toList.map fun c => c.toNat.toUInt8

/-- A number in decimal digits, without leading zeros. -/
def ofNat (n : Nat) : Bytes :=
  (Nat.toDigits 10 n).map fun c => c.toNat.toUInt8

/-- Horizontal tab. -/
def tab : UInt8 := 9

/-- Line feed. -/
def lf : UInt8 := 10

/-- Carriage return. -/
def cr : UInt8 := 13

/-- Space. -/
def space : UInt8 := 32

/-- Full stop. -/
def dot : UInt8 := 46

/-- Solidus, which separates the components of a path. -/
def slash : UInt8 := 47

/-- Adds a byte to the front of the first piece. -/
def consFirst (b : UInt8) : List Bytes → List Bytes
  | [] => [[b]]
  | p :: ps => (b :: p) :: ps

/-- The pieces between separators. There is always one more piece than there
    are separators, and pieces may be empty. -/
def pieces (sep : UInt8) : Bytes → List Bytes
  | [] => [[]]
  | b :: rest => if b = sep then [] :: pieces sep rest else consFirst b (pieces sep rest)

theorem consFirst_ne_nil (b : UInt8) (ps : List Bytes) : consFirst b ps ≠ [] := by
  cases ps <;> exact List.cons_ne_nil _ _

theorem pieces_ne_nil (sep : UInt8) (text : Bytes) : pieces sep text ≠ [] := by
  cases text with
  | nil => exact List.cons_ne_nil _ _
  | cons b rest =>
    rw [pieces]
    split
    · exact List.cons_ne_nil _ _
    · exact consFirst_ne_nil b _

/-- Joining the pieces with the separator gives the text back. -/
theorem intercalate_pieces (sep : UInt8) (text : Bytes) :
    List.intercalate [sep] (pieces sep text) = text := by
  induction text with
  | nil => rfl
  | cons b rest ih =>
    -- There is a first piece of the rest for the byte to be added to.
    obtain ⟨p, ps, hp⟩ := List.exists_cons_of_ne_nil (pieces_ne_nil sep rest)
    rw [hp] at ih
    rw [pieces, hp]
    split
    · rename_i hb
      rw [hb, ← ih]
      rfl
    · rw [consFirst, ← ih]
      cases ps <;> rfl

end Bytes

end ConfIndent
