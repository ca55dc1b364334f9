import ConfIndent.Proofs.Text.Fragments
import ConfIndent.Text.Detection

/-!
# Reading in Parts

A byte of ASCII is read as its own character in every charset that extends ASCII, and
what stands in front of it and what stands behind it are read apart. A text put
together of parts that start so is therefore read part by part.

The same is true of reading as UTF-8 with replacement characters, which never fails. So
the way of reading is left open here: it takes bytes and gives characters, or nothing if
the bytes cannot be read.

## Main definitions

* `Ascii`: The bytes are ASCII.
* `Charset.extendAscii`: The charsets that extend ASCII.
* `characters`: Every byte stands for the character of its value.
* `Parted`: A way of reading in which bytes of ASCII stand apart.

## Theorems

* `Utf8.fragments_append_cons`: UTF-8 can be cut in front of a byte of ASCII.
* `Charset.parted_of_mem`, `parted_decodeLossy`: The ways of reading in parts.
* `Parted.read_ascii_append`: ASCII in front is read as its characters.
-/

namespace ConfIndent

/-- The bytes are ASCII. -/
def Ascii (bytes : Bytes) : Prop :=
  ∀ b ∈ bytes, b < 0x80

theorem ascii_append {x y : Bytes} (hx : Ascii x) (hy : Ascii y) : Ascii (x ++ y) := by
  intro b hb
  rcases List.mem_append.1 hb with hb | hb
  · exact hx b hb
  · exact hy b hb

-- It is decided along the list, not by a look at every byte there is.
instance decidableAscii (bytes : Bytes) : Decidable (Ascii bytes) :=
  List.decidableBAll (· < 0x80) bytes

/-- The characters of the values of bytes. -/
def characters (bytes : Bytes) : List Char :=
  bytes.map fun b => Char.ofNat b.toNat

/-- Bytes of ASCII are read as their characters, apart from what stands around them. -/
structure Parted (read : Bytes → Option (List Char)) : Prop where
  read_nil : read [] = some []
  read_append_cons (front : Bytes) {b : UInt8} (hb : b < 0x80) (rest : Bytes) :
    read (front ++ b :: rest) =
      (read front).bind fun x => (read rest).map fun y => x ++ Char.ofNat b.toNat :: y

namespace Parted

variable {read : Bytes → Option (List Char)} (hread : Parted read)

include hread

theorem read_cons {b : UInt8} (hb : b < 0x80) (rest : Bytes) :
    read (b :: rest) = (read rest).map (Char.ofNat b.toNat :: ·) := by
  have hcut := hread.read_append_cons [] hb rest
  rwa [List.nil_append, hread.read_nil, Option.bind_some] at hcut

/-- ASCII in front is read as its characters. -/
theorem read_ascii_append {front : Bytes} (hfront : Ascii front) (rest : Bytes) :
    read (front ++ rest) = (read rest).map (characters front ++ ·) := by
  induction front with
  | nil => exact Option.map_id'.symm
  | cons b front ih =>
    rw [List.cons_append, hread.read_cons (hfront b List.mem_cons_self),
      ih fun b' hb' => hfront b' (List.mem_cons_of_mem _ hb'), Option.map_map]
    rfl

theorem read_ascii {bytes : Bytes} (h : Ascii bytes) : read bytes = some (characters bytes) := by
  have hall := hread.read_ascii_append h []
  rwa [List.append_nil, hread.read_nil, Option.map_some, List.append_nil] at hall

end Parted

/-- In a charset of single bytes every byte is read on its own. -/
theorem parted_mapM {f : UInt8 → Option Char}
    (hf : ∀ b < 0x80, f b = some (Char.ofNat b.toNat)) : Parted fun bytes => bytes.mapM f where
  read_nil := rfl
  read_append_cons front b hb rest := by
    rw [List.mapM_append, List.mapM_cons, hf b hb]
    cases front.mapM f with
    | none => rfl
    | some x => cases rest.mapM f <;> rfl

namespace Utf8

theorem not_continues_of_lt {b : UInt8} (hb : b < 0x80) : ¬Continues b :=
  fun h => UInt8.not_lt.2 h.1 hb

/-- UTF-8 can be cut in front of a byte of ASCII. -/
theorem fragments_append_cons (front : Bytes) {b : UInt8} (hb : b < 0x80) (rest : Bytes) :
    fragments (front ++ b :: rest) =
      fragments front ++ .char (Char.ofNat b.toNat) :: fragments rest := by
  rw [fragments_append, fragments_cons hb]
  intro b' hb'
  rw [List.head?_cons, Option.mem_some] at hb'
  rw [← hb']
  exact not_continues_of_lt hb

theorem parted_decode? : Parted decode? where
  read_nil := rfl
  read_append_cons front b hb rest := by
    rw [decode?, fragments_append_cons front hb, List.mapM_append, List.mapM_cons]
    rw [decode?, decode?]
    cases (fragments front).mapM Fragment.char? with
    | none => rfl
    | some x => cases (fragments rest).mapM Fragment.char? <;> rfl

theorem parted_decodeLossy : Parted fun bytes => some (decodeLossy bytes) where
  read_nil := rfl
  read_append_cons front b hb rest := by
    rw [decodeLossy, fragments_append_cons front hb, List.map_append]
    rfl

end Utf8

namespace Charset

/-- The charsets that extend ASCII and are detected. -/
def extendAscii : List Charset :=
  [ascii, latin1, windows1252, utf8]

theorem windows1252Char?_of_lt {b : UInt8} (hb : b < 0x80) :
    windows1252Char? b = some (Char.ofNat b.toNat) := by
  rw [windows1252Char?, if_neg fun h => UInt8.not_lt.2 h.1 hb]

/-- A charset that extends ASCII reads in parts. -/
theorem parted_of_mem {c : Charset} (h : c ∈ extendAscii) : Parted c.decode? := by
  simp only [extendAscii, List.mem_cons, List.not_mem_nil, or_false] at h
  rcases h with rfl | rfl | rfl | rfl
  · exact parted_mapM fun b hb => if_pos hb
  · have hdecode : latin1.decode? =
        fun bytes => bytes.mapM fun b => some (Char.ofNat b.toNat) := by
      funext bytes
      exact (List.mapM_pure (m := Option)).symm
    rw [hdecode]
    exact parted_mapM fun b hb => rfl
  · exact parted_mapM fun b hb => windows1252Char?_of_lt hb
  · exact Utf8.parted_decode?

end Charset

end ConfIndent
