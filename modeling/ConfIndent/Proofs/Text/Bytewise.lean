import ConfIndent.FileName
import ConfIndent.Proofs.Text.Display
import ConfIndent.Proofs.Text.Encoding
import ConfIndent.Proofs.Text.Parted
import ConfIndent.Proofs.Text.Written

/-!
# Text in Two Charsets

The same bytes may be text in two charsets, and then they need not be the same text. Of the
charsets that extend ASCII all but UTF-8 read a character from every byte, while UTF-8 reads
one byte as a character only if it is ASCII. So both read the same text from bytes of ASCII
and from no others: the lengths tell.

A name is handed in as text and kept in UTF-8. Read in another charset it comes out as
itself if it is ASCII. It does so too if the charset has no reading for it, since then it is
shown as UTF-8.

## Theorems

* `Utf8.ascii_encode`: A text with no more bytes than characters is ASCII.
* `Charset.length_of_decode?`: Every byte is a character.
* `Charset.display_eq_decodeLossy_iff`: When the charset makes no difference.
* `Charset.display_ofString_iff`: When a name is shown as it is.
-/

namespace ConfIndent

open Bytes

namespace Utf8

theorem decodeLossy_ofString (name : String) :
    decodeLossy (FileName.ofString name) = name.toList :=
  decodeLossy_of_decode? (decode?_encode name.toList)

theorem ascii_encodeChar {c : Char} (h : (encodeChar c).length = 1) : Ascii (encodeChar c) := by
  simp only [encodeChar] at h ⊢
  by_cases hone : c.toNat < 0x80
  · rw [if_pos hone]
    intro b hb
    rw [List.mem_singleton.1 hb, UInt8.lt_iff_toNat_lt, toNat_toUInt8 (by omega)]
    exact hone
  rw [if_neg hone] at h
  split at h
  · exact absurd h (Nat.succ_succ_ne_one _)
  · split at h <;> exact absurd h (Nat.succ_succ_ne_one _)

/-- A text with no more bytes than characters is ASCII. -/
theorem ascii_encode {text : List Char} (h : (encode text).length = text.length) :
    Ascii (encode text) := by
  induction text with
  | nil => exact fun b hb => absurd hb List.not_mem_nil
  | cons c text ih =>
    have hpos := List.length_pos_iff.2 (encodeChar_ne_nil c)
    have hle := length_le_length_encode text
    rw [encode_cons, List.length_append, List.length_cons] at h
    rw [encode_cons]
    exact ascii_append (ascii_encodeChar (by omega)) (ih (by omega))

end Utf8

namespace Charset

variable {c : Charset} (hc : c ∈ extendAscii)

include hc

theorem write?_of_mem {bytes : Bytes} {text : List Char} (h : c.decode? bytes = some text) :
    c.write? text = some bytes := by
  refine write?_of_decode? ?_ h
  simp only [extendAscii, List.mem_cons, List.not_mem_nil, or_false] at hc
  rcases hc with rfl | rfl | rfl | rfl <;> rfl

-- Only in UTF-8 are there characters of several bytes, and one that stands for stray bytes.
theorem exists_mapM_write? (hutf8 : c ≠ .utf8) : ∃ f : Char → Option UInt8,
    (∀ text, c.write? text = text.mapM f) ∧ f '\n' = some lf ∧ f Utf8.replacement = none := by
  simp only [extendAscii, List.mem_cons, List.not_mem_nil, or_false] at hc
  rcases hc with rfl | rfl | rfl | rfl
  · exact ⟨byteBelow? 0x80, fun _ => rfl, by decide, by decide⟩
  · exact ⟨byteBelow? 0x100, fun _ => rfl, by decide, by decide⟩
  · exact ⟨windows1252Byte?, fun _ => rfl, by decide, by decide⟩
  · exact absurd rfl hutf8

/-- A line feed that is read was there. -/
theorem lf_not_mem_of_decode? {bytes : Bytes} {text : List Char} (hlf : lf ∉ bytes)
    (h : c.decode? bytes = some text) : '\n' ∉ text := by
  intro hmem
  have hwrite := write?_of_mem hc h
  by_cases hutf8 : c = .utf8
  · rw [hutf8] at hwrite
    cases hwrite
    exact hlf (List.mem_flatMap.2 ⟨'\n', hmem, List.mem_singleton_self _⟩)
  · rcases exists_mapM_write? hc hutf8 with ⟨f, hf, hline, -⟩
    rw [hf] at hwrite
    rcases exists_mem_of_mapM hwrite hmem with ⟨b, hb, hchar⟩
    rw [hline, Option.some_inj] at hchar
    exact hlf (hchar ▸ hb)

/-- Where every byte is a character there are as many of them, and none stands for stray
    bytes. -/
theorem length_of_decode? (hutf8 : c ≠ .utf8) {bytes : Bytes} {text : List Char}
    (h : c.decode? bytes = some text) :
    text.length = bytes.length ∧ Utf8.replacement ∉ text := by
  have hwrite := write?_of_mem hc h
  rcases exists_mapM_write? hc hutf8 with ⟨f, hf, -, hstray⟩
  rw [hf] at hwrite
  refine ⟨(length_of_mapM hwrite).symm, fun hmem => ?_⟩
  rcases exists_mem_of_mapM hwrite hmem with ⟨b, -, hchar⟩
  rw [hstray] at hchar
  cases hchar

/-- Text that both ways of reading agree on is ASCII. -/
theorem display_eq_decodeLossy_iff (hutf8 : c ≠ .utf8) {bytes : Bytes}
    (haccepts : c.accepts bytes = true) :
    display (some c) bytes = Utf8.decodeLossy bytes ↔ Ascii bytes := by
  rcases Option.isSome_iff_exists.1 haccepts with ⟨text, htext⟩
  rw [display, Option.bind_some, htext, Option.getD_some]
  constructor
  · rintro rfl
    rcases length_of_decode? hc hutf8 htext with ⟨hlength, hstray⟩
    have hwrite := Utf8.encode_of_decode? (Utf8.decode?_of_not_mem hstray)
    rw [← hwrite]
    refine Utf8.ascii_encode ?_
    rw [hwrite, hlength]
  · intro hascii
    rw [(parted_of_mem hc).read_ascii hascii] at htext
    have hlossy := Utf8.parted_decodeLossy.read_ascii hascii
    rw [← Option.some_inj, ← htext, hlossy]

/-- A name is shown as it is in UTF-8, if it is ASCII, or if it is no text in the charset. -/
theorem display_ofString_iff (name : String) :
    display (some c) (FileName.ofString name) = name.toList ↔
      c = .utf8 ∨ Ascii (FileName.ofString name) ∨
        c.accepts (FileName.ofString name) = false := by
  have hlossy := Utf8.decodeLossy_ofString name
  by_cases hutf8 : c = .utf8
  · refine iff_of_true ?_ (.inl hutf8)
    rw [hutf8, ← display_none]
    exact hlossy
  · rw [or_iff_right hutf8]
    cases haccepts : c.accepts (FileName.ofString name) with
    | true =>
      rw [or_iff_left Bool.true_eq_false.mp, ← hlossy]
      exact display_eq_decodeLossy_iff hc hutf8 haccepts
    | false =>
      refine iff_of_true ?_ (.inr rfl)
      rw [accepts, Option.isSome_eq_false_iff, Option.isNone_iff_eq_none] at haccepts
      rw [display, Option.bind_some, haccepts]
      exact hlossy

end Charset

end ConfIndent
