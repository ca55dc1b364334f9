import ConfIndent.Proofs.Diff.Reading
import ConfIndent.Proofs.Lines
import ConfIndent.Proofs.Margin
import ConfIndent.Proofs.Text.Detection
import ConfIndent.Proofs.Text.Display
import ConfIndent.Proofs.Text.Encoding

/-!
# Changes in the Charset of the Document

The change of a document is shown in the charset that was detected for it, although the
labels and headers of a patch are none of its text. Nothing is damaged by that if the
charset is the one that the rules tell.

A charset that extends ASCII is read in parts: before a byte of ASCII it does not matter
what was read. Lines end in such bytes, so the lines of a text can be read if the text
can, and each line of a patch starts with one, so they can be put together in any
order. That is all it takes for a patch to be read where both texts can be. The
formatter takes away and puts in nothing but ASCII.

The charsets in units of two and four bytes do not extend ASCII, and a patch could not be
read in them. But they are detected by a mark only, and neither a mark nor the one of
UTF-8 starts with a blank. A document behind a mark has no margin and is left alone. That
makes them harmless, not exact: to encode the empty text that is shown is to write a mark.

## Main definitions

* `Charset.Transparent`: ASCII stands out in the charset.
* `Charset.Opens`: A part of a patch can be read and starts in ASCII.

## Theorems

* `Charset.transparent_of_mem`: ASCII stands out in the charsets that extend it.
* `Charset.Transparent.accepts_of_mem_split`: The lines of a text can be read.
* `Charset.Transparent.accepts_unified`: The patch of readable texts can be read.
* `unified_of_startsSolid`: A document behind a mark has no change.
* `diff_read_strictly`: The change that is shown was read strictly.
* `exists_encoded_marked`: What is shown may be encoded as more than the patch.
-/

namespace ConfIndent

open Bytes

namespace Charset

/-- ASCII stands out in the charset: before a byte of ASCII the text can be cut. -/
structure Transparent (c : Charset) : Prop where
  accepts_nil : c.accepts [] = true
  accepts_append_cons (front : Bytes) {b : UInt8} (hb : b < 0x80) (rest : Bytes) :
    c.accepts (front ++ b :: rest) = (c.accepts front && c.accepts rest)

/-- ASCII stands out in the charsets that extend it. -/
theorem transparent_of_mem {c : Charset} (h : c ∈ extendAscii) : c.Transparent where
  accepts_nil := by
    rw [accepts, (parted_of_mem h).read_nil, Option.isSome_some]
  accepts_append_cons front b hb rest := by
    rw [accepts, accepts, accepts, (parted_of_mem h).read_append_cons front hb]
    cases c.decode? front with
    | none => rfl
    | some x => cases c.decode? rest <;> rfl

/-- The part can be read and starts in ASCII. -/
def Opens (c : Charset) (part : Bytes) : Prop :=
  c.accepts part = true ∧ ∃ b rest, part = b :: rest ∧ b < 0x80

namespace Transparent

variable {c : Charset} (hc : c.Transparent)

include hc

theorem accepts_cons {b : UInt8} (hb : b < 0x80) (rest : Bytes) :
    c.accepts (b :: rest) = c.accepts rest := by
  have := hc.accepts_append_cons [] hb rest
  rwa [List.nil_append, hc.accepts_nil, Bool.true_and] at this

/-- ASCII in front makes no difference to whether a text can be read. -/
theorem accepts_ascii_append {front : Bytes} (hfront : Ascii front) (rest : Bytes) :
    c.accepts (front ++ rest) = c.accepts rest := by
  induction front with
  | nil => rw [List.nil_append]
  | cons b front ih =>
    rw [List.cons_append, hc.accepts_cons (hfront b List.mem_cons_self),
      ih fun b' hb' => hfront b' (List.mem_cons_of_mem _ hb')]

theorem accepts_ascii {bytes : Bytes} (h : Ascii bytes) : c.accepts bytes = true := by
  rw [← List.append_nil bytes, hc.accepts_ascii_append h, hc.accepts_nil]

theorem opens_ascii {bytes : Bytes} (hne : bytes ≠ []) (h : Ascii bytes) : c.Opens bytes := by
  rcases List.exists_cons_of_ne_nil hne with ⟨b, rest, rfl⟩
  exact ⟨hc.accepts_ascii h, b, rest, rfl, h b List.mem_cons_self⟩

theorem opens_append {x y : Bytes} (hx : c.Opens x) (hy : c.Opens y) : c.Opens (x ++ y) := by
  rcases hx with ⟨hx, a, x', rfl, ha⟩
  rcases hy with ⟨hy, b, y', rfl, hb⟩
  rw [hc.accepts_cons hb] at hy
  refine ⟨?_, a, x' ++ b :: y', List.cons_append, ha⟩
  rw [hc.accepts_append_cons _ hb, hx, hy, Bool.and_self]

/-- Parts that can be read can be read together. -/
theorem opens_append_flatten {x : Bytes} (hx : c.Opens x) {parts : List Bytes}
    (h : ∀ part ∈ parts, c.Opens part) : c.Opens (x ++ parts.flatten) := by
  induction parts generalizing x with
  | nil => rwa [List.flatten_nil, List.append_nil]
  | cons part parts ih =>
    rw [List.flatten_cons, ← List.append_assoc]
    exact ih (hc.opens_append hx (h part List.mem_cons_self))
      fun part' hpart' => h part' (List.mem_cons_of_mem _ hpart')

/-- A text can be cut behind a byte of ASCII. -/
theorem accepts_of_mem_flatten {parts : List Bytes}
    (hended : ∀ part ∈ parts.dropLast, ∃ body b, part = body ++ [b] ∧ b < 0x80)
    (h : c.accepts parts.flatten = true) : ∀ part ∈ parts, c.accepts part = true := by
  induction parts with
  | nil => exact fun part hpart => absurd hpart List.not_mem_nil
  | cons part parts ih =>
    rcases parts with _ | ⟨next, parts⟩
    · rw [List.flatten_singleton] at h
      intro part' hpart'
      rwa [List.mem_singleton.1 hpart']
    · rw [List.dropLast_cons_cons] at hended
      rcases hended part List.mem_cons_self with ⟨body, b, rfl, hb⟩
      rw [List.flatten_cons, List.append_assoc, List.singleton_append,
        hc.accepts_append_cons _ hb, Bool.and_eq_true] at h
      intro part' hpart'
      rcases List.mem_cons.1 hpart' with rfl | hpart'
      · rw [hc.accepts_append_cons _ hb, h.1, hc.accepts_nil, Bool.and_self]
      · exact ih (fun p hp => hended p (List.mem_cons_of_mem _ hp)) h.2 part' hpart'

end Transparent

end Charset

-- A line that another follows has an end, which is a byte of ASCII.
theorem ended_of_mem_dropLast_split {text line : Bytes} (h : line ∈ (Lines.split text).dropLast) :
    ∃ body b, line = body ++ [b] ∧ b < 0x80 := by
  rcases Lines.ended_of_mem_dropLast h with ⟨body, b, hline, rfl | rfl⟩
  · exact ⟨body, lf, hline, by decide⟩
  · exact ⟨body, cr, hline, by decide⟩

theorem ascii_ofNat (n : Nat) : Ascii (ofNat n) := by
  intro b hb
  have := le_of_mem_ofNat hb
  rw [UInt8.lt_iff_toNat_lt]
  exact Nat.lt_of_le_of_lt this.2 (by decide)

namespace Diff

theorem ascii_range (start size : Nat) : Ascii (Patch.range start size) := by
  rcases size with _ | _ | size
  · exact ascii_append (ascii_ofNat _) (by decide)
  · exact ascii_ofNat _
  · exact ascii_append (ascii_append (ascii_ofNat _) (by decide)) (ascii_ofNat _)

theorem ascii_header (h : Hunk Bytes) : Ascii (Patch.header h) := by
  unfold Patch.header
  exact ascii_append (ascii_append (ascii_append (ascii_append (by decide) (ascii_range _ _))
    (by decide)) (ascii_range _ _)) (by decide)

theorem ascii_labels {name : Bytes} (hname : Ascii name) : Ascii (Patch.labels name) := by
  unfold Patch.labels
  exact ascii_append (ascii_append (ascii_append (by decide) hname) (by decide))
    (ascii_append (ascii_append (by decide) hname) (by decide))

theorem sign_lt (m : Mark Bytes) : (Patch.signed m).1 < 0x80 := by
  cases m with
  | kept l => exact (by decide : (32 : UInt8) < 0x80)
  | removed l => exact (by decide : (45 : UInt8) < 0x80)
  | added l => exact (by decide : (43 : UInt8) < 0x80)

end Diff

namespace Charset.Transparent

variable {c : Charset} (hc : c.Transparent)

include hc

/-- The lines of a text can be read if the text can. -/
theorem accepts_of_mem_split {text : Bytes} (h : c.accepts text = true) :
    ∀ line ∈ Lines.split text, c.accepts line = true := by
  rw [← Lines.flatten_split text] at h
  exact hc.accepts_of_mem_flatten (fun _ => ended_of_mem_dropLast_split) h

theorem opens_line {m : Diff.Mark Bytes} (h : c.accepts (Diff.Patch.signed m).2 = true) :
    c.Opens (Diff.Patch.line m) := by
  have hsign := Diff.sign_lt m
  have hsigned : c.Opens ((Diff.Patch.signed m).1 :: (Diff.Patch.signed m).2) :=
    ⟨by rw [hc.accepts_cons hsign, h], _, _, rfl, hsign⟩
  unfold Diff.Patch.line
  split
  · rwa [List.append_nil]
  · exact hc.opens_append hsigned (hc.opens_ascii (List.cons_ne_nil _ _) (by decide))

/-- A hunk can be read if its lines can. -/
theorem opens_hunk {h : Diff.Hunk Bytes}
    (hmarks : ∀ m ∈ h.marks, c.accepts (Diff.Patch.signed m).2 = true) :
    c.Opens (Diff.Patch.hunk h) := by
  rw [Diff.Patch.hunk, List.flatMap_def]
  have hne : Diff.Patch.header h ≠ [] := by
    rw [Diff.Patch.header, List.append_assoc, List.append_assoc, List.append_assoc]
    exact List.cons_ne_nil _ _
  refine hc.opens_append_flatten (hc.opens_ascii hne (Diff.ascii_header h)) ?_
  intro part hpart
  rcases List.mem_map.1 hpart with ⟨m, hm, rfl⟩
  exact hc.opens_line (hmarks m hm)

/-- The hunks of two texts can be read if the texts can. -/
theorem opens_of_mem_changes {old new : Bytes} (hold : c.accepts old = true)
    (hnew : c.accepts new = true) {h : Diff.Hunk Bytes} (hh : h ∈ Diff.changes old new) :
    c.Opens (Diff.Patch.hunk h) := by
  refine hc.opens_hunk fun m hm => ?_
  rcases Diff.Patch.mem_split_of_mem_changes hh hm with hmem | hmem
  · exact hc.accepts_of_mem_split hold _ hmem
  · exact hc.accepts_of_mem_split hnew _ hmem

/-- The hunks of texts that can be read can be read together. -/
theorem accepts_hunks {old new : Bytes} (hold : c.accepts old = true)
    (hnew : c.accepts new = true) :
    c.accepts ((Diff.changes old new).flatMap Diff.Patch.hunk) = true := by
  have hopens {h : Diff.Hunk Bytes} (hh : h ∈ Diff.changes old new) :=
    hc.opens_of_mem_changes hold hnew hh
  rw [List.flatMap_def]
  generalize Diff.changes old new = hunks at hopens ⊢
  rcases hunks with _ | ⟨first, hunks⟩
  · exact hc.accepts_nil
  · rw [List.map_cons, List.flatten_cons]
    refine (hc.opens_append_flatten (hopens List.mem_cons_self) ?_).1
    intro part hpart
    rcases List.mem_map.1 hpart with ⟨h, hh, rfl⟩
    exact hopens (List.mem_cons_of_mem _ hh)

/-- The patch of two texts can be read if the texts can. -/
theorem accepts_unified {old new name : Bytes} (hname : Ascii name) (hold : c.accepts old = true)
    (hnew : c.accepts new = true) : c.accepts (Diff.unified old new name) = true := by
  unfold Diff.unified
  split
  · exact hc.accepts_nil
  · rw [hc.accepts_ascii_append (Diff.ascii_labels hname)]
    exact hc.accepts_hunks hold hnew

/-- A formatted document can be read if its source can. -/
theorem accepts_retab {document : Bytes} (h : c.accepts document = true) :
    c.accepts (retab document) = true := by
  have hproper := Opening.proper_ofDocument document
  have hblank {bytes : Bytes} (hbytes : ∀ b ∈ bytes, isBlank b) : Ascii bytes := by
    intro b hb
    have hcode := hbytes b hb
    simp only [isBlank, isBlankCode, Bool.or_eq_true, beq_iff_eq] at hcode
    rw [UInt8.lt_iff_toNat_lt]
    change b.toNat < 128
    omega
  have htabs : Ascii (List.replicate (Opening.ofDocument document).tabs tab) := by
    intro b hb
    rw [List.eq_of_mem_replicate hb]
    decide
  have hlines := hblank hproper.blankLines_blank
  rw [← Opening.text_ofDocument document, Opening.text,
    hc.accepts_ascii_append (ascii_append hlines (hblank hproper.margin_blank))] at h
  rw [retab, Opening.retab, hc.accepts_ascii_append (ascii_append hlines htabs), h]

end Charset.Transparent

-- A document that does not start with a blank has no margin.
theorem retab_cons {b : UInt8} (hb : isBlank b = false) (rest : Bytes) :
    retab (b :: rest) = b :: rest := by
  rw [retab_eq_self_iff]
  have hmargin : (Opening.ofDocument (b :: rest)).margin = [] := by
    rw [Opening.ofDocument, List.takeWhile_cons_of_neg (by rw [hb]; exact Bool.false_ne_true)]
    rfl
  rw [hmargin]
  exact fun b' hb' => absurd hb' List.not_mem_nil

/-- No patch opens with a mark. -/
theorem opensMarked_unified (charset : Charset) (old new name : Bytes) :
    charset.opensMarked (Diff.unified old new name) = false := by
  unfold Diff.unified
  split
  · rcases charset with _ | _ | _ | _ | _ | _ | (_ | _) | _ | (_ | _) <;> rfl
  · -- A patch starts with a hyphen, and no mark does.
    rw [Diff.Patch.labels, List.append_assoc, List.append_assoc]
    rcases charset with _ | _ | _ | _ | _ | _ | (_ | _) | _ | (_ | _) <;> rfl

-- No part of a patch is passed over as a mark, so it is written as it was read.
theorem write?_unified {charset : Charset} {old new name : Bytes} {text : List Char}
    (h : charset.decode? (Diff.unified old new name) = some text) :
    charset.write? text = some (Diff.unified old new name) :=
  Charset.write?_of_decode? (opensMarked_unified _ _ _ _) h

/-- A document whose charset a mark told is left alone, and there is no change to be shown. -/
theorem unified_of_startsSolid {document : Bytes} (h : StartsSolid document) (name : Bytes) :
    retab document = document ∧ Diff.unified document (retab document) name = [] := by
  rcases h with ⟨b, rest, rfl, hb⟩
  have hsame := retab_cons hb rest
  exact ⟨hsame, by rw [hsame, Diff.unified, if_pos rfl]⟩

-- Of the charsets that are told only those in units of several bytes encode a mark.
theorem mark_of_mem : ∀ c ∈ Charset.extendAscii ++ Charset.withMark,
    c ≠ .utf16 → c ≠ .utf32 → c.mark = [] := by
  decide

/-- The change of a document is shown as what it is, whatever charset the rules tell. Its
    text was read strictly in that charset and is encoded there as the bytes of the patch,
    unless the charset is one in which every text is encoded behind a mark. Behind a mark
    there is no change to be shown, and then the mark is all that is encoded. -/
theorem diff_read_strictly {detector : Detector} {document name : Bytes}
    (hname : ∀ b ∈ name, b < 0x80) (htold : Told document (detector document))
    {charset : Charset} (hdetect : detector document = some charset) :
    ∃ text, (Report.ofDocument document name true detector).diff = some text ∧
      charset.decode? (Diff.unified document (retab document) name) = some text ∧
      (charset ≠ .utf16 → charset ≠ .utf32 →
        charset.encode? text = some (Diff.unified document (retab document) name)) ∧
      (charset = .utf16 ∨ charset = .utf32 → charset.encode? text = some charset.mark) ∧
      (charset = .utf16 ∨ charset = .utf32 ∨ Charset.utf8Mark <+: document →
        retab document = document ∧
          (Report.ofDocument document name true detector).changed = false ∧
          Diff.unified document (retab document) name = [] ∧ text = []) := by
  rw [hdetect] at htold
  have hcases := cases_of_told htold
  have haccepts : charset.accepts (Diff.unified document (retab document) name) = true := by
    rcases hcases with ⟨hmem, hdocument⟩ | ⟨-, hsolid⟩
    · have hc := Charset.transparent_of_mem hmem
      exact hc.accepts_unified hname hdocument (hc.accepts_retab hdocument)
    · rw [(unified_of_startsSolid hsolid name).2, Charset.accepts, Charset.decode?_nil,
        Option.isSome_some]
  rcases Option.isSome_iff_exists.1 haccepts with ⟨text, htext⟩
  have hencode := Charset.encode?_of_write? (write?_unified htext)
  have hmarked (h : charset = .utf16 ∨ charset = .utf32 ∨ Charset.utf8Mark <+: document) :
      StartsSolid document := by
    rcases h with rfl | rfl | hmark
    · exact (hcases.resolve_left fun h => absurd h.1 (by decide)).2
    · exact (hcases.resolve_left fun h => absurd h.1 (by decide)).2
    · exact startsSolid_of_prefix ⟨_, _, rfl, by decide⟩ hmark
  refine ⟨text, ?_, htext, ?_, ?_, ?_⟩
  · simp only [Report.ofDocument, if_true, Charset.display, hdetect, Option.bind_some, htext,
      Option.getD_some]
  · intro hutf16 hutf32
    have hmem := List.mem_append.2 (hcases.imp And.left And.left)
    rwa [mark_of_mem charset hmem hutf16 hutf32, List.nil_append] at hencode
  · intro h
    have hsolid := hmarked (h.imp_right .inl)
    rwa [(unified_of_startsSolid hsolid name).2, List.append_nil] at hencode
  · intro h
    rcases unified_of_startsSolid (hmarked h) name with ⟨hsame, hnil⟩
    refine ⟨hsame, ?_, hnil, ?_⟩
    · rw [Report.ofDocument, hsame, bne_self_eq_false]
    · rw [hnil, Charset.decode?_nil, Option.some_inj] at htext
      exact htext.symm

/-- A document in Latin-1 says so. Its margin becomes a tab, and the change is shown in
    Latin-1 although the document is not UTF-8. -/
theorem diff_read_strictly_declared :
    let document := ofAscii "  caf" ++ 0xE9 :: ofAscii " # coding: latin-1\n"
    let name := ofAscii "a.conf"
    (∀ b ∈ name, b < 0x80) ∧ Told document (detect document) ∧
      detect document = some .latin1 ∧
      ∃ text, (Report.ofDocument document name true).diff = some text ∧
        Charset.latin1.encode? text = some (Diff.unified document (retab document) name) := by
  intro document name
  have hname : Ascii name := by
    decide
  have htold : Told document (detect document) :=
    told_iff.2 rfl
  have hdetect : detect document = some .latin1 := by
    decide +kernel
  rcases diff_read_strictly hname htold hdetect with ⟨text, hdiff, -, hencode, -⟩
  exact ⟨hname, htold, hdetect, text, hdiff, hencode (by decide) (by decide)⟩

/-- A letter in units of two bytes behind their mark. There is no change and nothing is shown,
    but nothing is encoded as a mark. -/
theorem exists_encoded_marked :
    ∃ (document name : Bytes) (charset : Charset) (text : List Char),
      (∀ b ∈ name, b < 0x80) ∧ Told document (detect document) ∧
      detect document = some charset ∧
      (Report.ofDocument document name true).diff = some text ∧
      charset.decode? (Diff.unified document (retab document) name) = some text ∧
      charset.encode? text ≠ some (Diff.unified document (retab document) name) := by
  have hname : Ascii (ofAscii "x.conf") := by decide
  refine ⟨[0xFF, 0xFE, 0x61, 0], ofAscii "x.conf", .utf16, [], hname, told_iff.2 rfl, ?_, ?_, ?_,
    ?_⟩ <;> decide +kernel

end ConfIndent
