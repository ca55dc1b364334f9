import ConfIndent.Proofs.Indent
import ConfIndent.Report

/-!
# Formatted Documents

Which documents the formatter leaves alone. The cut of a formatted document is known,
and its margin holds tabs and nothing else. A document whose margin does so already is
formatted, and no other is, since the parts of a document are found again by cutting it.

A margin holds blanks of one line, so a byte of it that is no tab is a space or a
carriage return. These are what a document is reported as changed for.

The margin is looked at in two ways, as a part of the cut and as the stretch of the
document between the two offsets. That they are one is a fact about the parts alone.

## Theorems

* `Opening.extract_margin`: The margin lies between the offsets.
* `Opening.tabs_le_length`: A margin is worth no more tabs than it holds bytes.
* `retab_eq_self_iff`: The formatter leaves alone what has a margin of tabs.
* `retab_fixed`: What formatting does to its own result, and to what it leaves alone.
-/

namespace ConfIndent

open Bytes

namespace Opening

/-- What stands before the line of the first code. -/
theorem take_lineStart (source : Bytes) :
    source.take (ofDocument source).lineStart = (ofDocument source).blankLines := by
  have htext : (ofDocument source).text.take (ofDocument source).lineStart =
      (ofDocument source).blankLines := by
    rw [lineStart, text, List.append_assoc, List.take_left]
  rwa [text_ofDocument] at htext

/-- The margin is the stretch of the document between the two offsets. -/
theorem extract_margin (o : Opening) : o.text.extract o.lineStart o.scanEnd = o.margin := by
  rw [List.extract_eq_take_drop, lineStart, scanEnd, Nat.add_sub_cancel_left, text,
    List.append_assoc, List.drop_left, List.take_left]

/-- A margin is worth no more tabs than it holds bytes. -/
theorem tabs_le_length (o : Opening) : o.tabs ≤ o.margin.length := by
  unfold tabs
  split
  · split
    · -- There is a space for the one tab.
      rename_i hspace
      exact List.length_pos_of_mem hspace
    · exact Nat.zero_le _
  · exact List.count_le_length

/-- A margin that is worth its own bytes holds nothing but tabs. -/
theorem replicate_tabs_eq_iff (o : Opening) :
    List.replicate o.tabs tab = o.margin ↔ ∀ b ∈ o.margin, b = tab := by
  constructor
  · intro h b hb
    rw [← h] at hb
    exact List.eq_of_mem_replicate hb
  · intro h
    have hmargin := List.eq_replicate_of_mem h
    have htabs := tabs_replicate o.blankLines o.rest o.margin.length
    rw [← hmargin] at htabs
    rw [htabs, ← hmargin]

/-- A byte of a margin is a tab, a space or a carriage return. -/
theorem cases_of_mem_margin {source : Bytes} {b : UInt8} (h : b ∈ (ofDocument source).margin) :
    b = tab ∨ b = space ∨ b = cr := by
  have hblank := (proper_ofDocument source).margin_blank b h
  have hlf : b ≠ lf := by
    rintro rfl
    exact lf_not_mem_margin source h
  have hcode {n : UInt8} (hb : (b.toNat : Int) = n.toNat) : b = n :=
    UInt8.toNat_inj.1 (Int.ofNat_inj.1 hb)
  simp only [isBlank, isBlankCode, Bool.or_eq_true, beq_iff_eq] at hblank
  rcases hblank with ((hspace | htab) | hfeed) | hreturn
  · exact .inr (.inl (hcode hspace))
  · exact .inl (hcode htab)
  · exact absurd (hcode hfeed : b = lf) hlf
  · exact .inr (.inr (hcode hreturn))

/-- A margin that does not hold tabs only holds a space or a carriage return. -/
theorem margin_tabs_iff (source : Bytes) :
    (∀ b ∈ (ofDocument source).margin, b = tab) ↔
      ¬(space ∈ (ofDocument source).margin ∨ cr ∈ (ofDocument source).margin) := by
  constructor
  · rintro h (hspace | hreturn)
    · exact absurd (h space hspace) (by decide)
    · exact absurd (h cr hreturn) (by decide)
  · intro h b hb
    rcases cases_of_mem_margin hb with htab | rfl | rfl
    · exact htab
    · exact absurd (.inl hb) h
    · exact absurd (.inr hb) h

end Opening

/-- The formatter leaves alone what has a margin of tabs, and nothing else. -/
theorem retab_eq_self_iff (source : Bytes) :
    retab source = source ↔ ∀ b ∈ (Opening.ofDocument source).margin, b = tab := by
  have hparts : retab source = source ↔
      (Opening.ofDocument source).retab = (Opening.ofDocument source).text := by
    rw [Opening.text_ofDocument, retab]
  rw [hparts, Opening.retab, Opening.text, List.append_left_inj, List.append_right_inj,
    Opening.replicate_tabs_eq_iff]

/-- Formatting makes no document longer. -/
theorem length_retab_le (source : Bytes) : (retab source).length ≤ source.length := by
  have htabs := (Opening.ofDocument source).tabs_le_length
  have hlength : source.length = (Opening.ofDocument source).text.length := by
    rw [Opening.text_ofDocument]
  rw [hlength, retab, Opening.retab, Opening.text]
  simp only [List.length_append, List.length_replicate]
  omega

/-- A formatted document has its offsets where its source has them, up to the length of
    the margin, and formatting it again changes nothing. A document is formatted already
    if there are only tabs between its offsets. It is reported as changed if there is a
    space or a carriage return. -/
theorem retab_fixed (source : Bytes) :
    let o := Opening.ofDocument source
    let o' := Opening.ofDocument (retab source)
    (o'.lineStart = o.lineStart ∧ o'.scanEnd = o.lineStart + o.tabs ∧ o'.tabs = o.tabs) ∧
      retab (retab source) = retab source ∧
      (retab source = source ↔ ∀ b ∈ source.extract o.lineStart o.scanEnd, b = tab) ∧
      (∀ name withDiff, (Report.ofDocument source name withDiff).changed = true ↔
        space ∈ Opening.afterLastLine (source.takeWhile isBlank) ∨
          cr ∈ Opening.afterLastLine (source.takeWhile isBlank)) ∧
      (retab source).length ≤ source.length := by
  intro o o'
  have hcut : o' = { o with margin := List.replicate o.tabs tab } := ofDocument_retab source
  have hextract : source.extract o.lineStart o.scanEnd = o.margin := by
    rw [← o.extract_margin, Opening.text_ofDocument]
  refine ⟨⟨?_, ?_, ?_⟩, retab_retab source, ?_, ?_, length_retab_le source⟩
  · rw [hcut]
    rfl
  · rw [hcut, Opening.scanEnd, List.length_replicate]
    rfl
  · rw [hcut, Opening.tabs_replicate]
  · rw [hextract]
    exact retab_eq_self_iff source
  · intro name withDiff
    have hmargin := (retab_eq_self_iff source).trans (Opening.margin_tabs_iff source)
    rw [Report.ofDocument, bne_iff_ne, ne_eq, hmargin, Decidable.not_not]
    rfl

end ConfIndent
