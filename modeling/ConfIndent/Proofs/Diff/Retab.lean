import ConfIndent.Proofs.Diff.Replaced
import ConfIndent.Proofs.Lines
import ConfIndent.Proofs.Margin

/-!
# The Patch of a Formatted Document

Formatting replaces one line, and its patch shows that line between the lines next to it. A
margin without a carriage return stands at the front of a single line, the first with code,
so the blank lines before it and the lines behind it are those of the formatted document too.

Neither form of the line stands among the blank lines. It opens with blanks that end no
line, and after them comes a byte of code or the end of the document. A blank line is blank
up to the end that it has. Whether the line is repeated further down is up to the document.

## Main definitions

* `Opening.firstLine`: The first line with code.
* `Opening.laterLines`: The lines behind it.
* `CutAtMargin`: The lines of a document, cut at the line that is replaced.

## Theorems

* `Opening.Proper.split_text`: The lines of a document, part by part.
* `Opening.Proper.firstLine_not_mem`: The first line with code is no blank line.
* `exists_lines_retab`: Formatting replaces one line.
* `unified_retab`: The patch of a formatted document.
-/

namespace ConfIndent

open Bytes

namespace Opening

/-- The line that the margin stands on. -/
def firstLine (o : Opening) : Bytes :=
  o.margin ++ (Lines.split o.rest).headD []

/-- The lines behind the one that the margin stands on. -/
def laterLines (o : Opening) : List Bytes :=
  (Lines.split o.rest).tail

theorem Proper.ended_blankLines {o : Opening} (h : o.Proper) : Lines.Ended o.blankLines := by
  have hended := h.blankLines_ended
  rcases List.eq_nil_or_concat o.blankLines with hnil | ⟨body, b, hlines⟩
  · exact .inl hnil
  · rw [hlines, List.concat_eq_append, List.reverse_concat] at hended
    rw [hlines, List.concat_eq_append]
    by_cases hb : b = lf
    · rw [hb]
      exact .inr List.getLast?_concat
    · rw [List.takeWhile_cons, if_pos (bne_iff_ne.2 hb)] at hended
      exact absurd hended (List.cons_ne_nil _ _)

/-- The lines of a document, part by part. -/
theorem Proper.split_text {o : Opening} (h : o.Proper) (hne : o.margin ≠ [])
    (hcr : cr ∉ o.margin) :
    Lines.split o.text = Lines.split o.blankLines ++ o.firstLine :: o.laterLines := by
  rw [text, List.append_assoc, Lines.split_append_of_ended h.ended_blankLines,
    Lines.split_append_of_open hne h.lf_not_mem hcr]
  rfl

-- Only the margin of the first line with code is blank.
theorem Proper.takeWhile_firstLine {o : Opening} (h : o.Proper) :
    o.firstLine.takeWhile isBlank = o.margin := by
  have hfirst : ((Lines.split o.rest).headD []).takeWhile isBlank = [] := by
    have hrest := h.rest_takeWhile
    rw [← Lines.flatten_split o.rest] at hrest
    rcases hsplit : Lines.split o.rest with _ | ⟨first, others⟩
    · rfl
    · rw [hsplit, List.flatten_cons, List.takeWhile_append] at hrest
      split at hrest
      · rw [(List.append_eq_nil_iff.1 hrest).1]
        rfl
      · exact hrest
  rw [firstLine, List.takeWhile_append_of_pos h.margin_blank, hfirst, List.append_nil]

/-- The first line with code is no blank line. -/
theorem Proper.firstLine_not_mem {o : Opening} (h : o.Proper) (hne : o.margin ≠ [])
    (hcr : cr ∉ o.margin) : o.firstLine ∉ Lines.split o.blankLines := by
  intro hmem
  have hended : o.firstLine ∈ (Lines.split o.text).dropLast := by
    rw [h.split_text hne hcr, List.dropLast_append_of_ne_nil (List.cons_ne_nil _ _)]
    exact List.mem_append_left _ hmem
  rcases Lines.ended_of_mem_dropLast hended with ⟨body, b, hline, hb⟩
  -- A line that is blank all through is its own margin, and no margin holds an end.
  have hblank : ∀ c ∈ o.firstLine, isBlank c := by
    intro c hc
    refine h.blankLines_blank c ?_
    rw [← Lines.flatten_split o.blankLines]
    exact List.mem_flatten_of_mem hmem hc
  have hmargin := h.takeWhile_firstLine
  rw [← List.append_nil o.firstLine, List.takeWhile_append_of_pos hblank, List.takeWhile_nil,
    List.append_nil, hline] at hmargin
  have hlast : b ∈ o.margin := by
    rw [← hmargin]
    exact List.mem_append_right _ List.mem_cons_self
  rcases hb with rfl | rfl
  · exact h.lf_not_mem hlast
  · exact hcr hlast

theorem tabs_ne_zero {o : Opening} (h : space ∈ o.margin) : o.tabs ≠ 0 := by
  rw [tabs, if_pos h]
  split
  · exact Nat.one_ne_zero
  · assumption

end Opening

namespace Diff

/-- The lines of a document and of its formatted form, cut at the line that the margin
    stands on. -/
structure CutAtMargin (source : Bytes) (front : List Bytes) (x y : Bytes) (back : List Bytes) :
    Prop where
  /-- The lines before the line, the line and those behind it. -/
  source_lines : Lines.split source = front ++ [x] ++ back
  /-- The line starts where the margin does. -/
  line_start : front.flatten.length = (Opening.ofDocument source).lineStart
  /-- The line that stands in its place. -/
  formatted_line : (Lines.split (retab source))[front.length]? = some y

/-- Only the line that the margin stands on is replaced, and it is no blank line before or
    after. -/
theorem exists_lines_retab {source : Bytes} (hchanged : retab source ≠ source)
    (hcr : cr ∉ (Opening.ofDocument source).margin) :
    ∃ front x y back, Lines.split source = front ++ x :: back ∧
      Lines.split (retab source) = front ++ y :: back ∧
      front.flatten.length = (Opening.ofDocument source).lineStart ∧ x ∉ front ∧ y ∉ front := by
  have hproper := Opening.proper_ofDocument source
  have hproper' := Opening.proper_ofDocument (retab source)
  have hcut := ofDocument_retab source
  have hspace : space ∈ (Opening.ofDocument source).margin := by
    rw [ne_eq, retab_eq_self_iff, Opening.margin_tabs_iff, Decidable.not_not] at hchanged
    exact hchanged.resolve_right hcr
  have hsplit := hproper.split_text (List.ne_nil_of_mem hspace) hcr
  have hfront := hproper.firstLine_not_mem (List.ne_nil_of_mem hspace) hcr
  -- The new margin holds tabs, and at least one.
  have hne' : (Opening.ofDocument (retab source)).margin ≠ [] := by
    rw [hcut, ne_eq, List.replicate_eq_nil_iff]
    exact Opening.tabs_ne_zero hspace
  have hcr' : cr ∉ (Opening.ofDocument (retab source)).margin := by
    rw [hcut]
    intro hmem
    exact absurd (List.eq_of_mem_replicate hmem) (by decide)
  have hsplit' := hproper'.split_text hne' hcr'
  have hfront' := hproper'.firstLine_not_mem hne' hcr'
  rw [Opening.text_ofDocument] at hsplit hsplit'
  have hlines : (Opening.ofDocument (retab source)).blankLines =
      (Opening.ofDocument source).blankLines := by rw [hcut]
  have hlater : (Opening.ofDocument (retab source)).laterLines =
      (Opening.ofDocument source).laterLines := by rw [hcut, Opening.laterLines, Opening.laterLines]
  rw [hlines] at hsplit' hfront'
  rw [hlater] at hsplit'
  exact ⟨_, _, _, _, hsplit, hsplit', by rw [Lines.flatten_split]; rfl, hfront, hfront'⟩

/-- The lines of a document are cut at its margin in one way. -/
theorem CutAtMargin.eq_of_lines {source : Bytes} {front : List Bytes} {x y : Bytes}
    {back : List Bytes} (h : CutAtMargin source front x y back) {front' : List Bytes}
    {x' y' : Bytes} {back' : List Bytes} (hsource : Lines.split source = front' ++ x' :: back')
    (hformatted : Lines.split (retab source) = front' ++ y' :: back')
    (hstart : front'.flatten.length = (Opening.ofDocument source).lineStart) :
    front = front' ∧ x = x' ∧ y = y' ∧ back = back' := by
  have hlines := h.source_lines
  rw [List.append_assoc] at hlines
  have hfront : front = front' :=
    Lines.eq_of_length_flatten ⟨_, hlines.symm⟩ ⟨_, hsource.symm⟩
      (h.line_start.trans hstart.symm)
  subst hfront
  rw [hsource, List.append_right_inj, List.singleton_append, List.cons_eq_cons] at hlines
  have hline := h.formatted_line
  rw [hformatted, getElem?_replaced_length, Option.some_inj] at hline
  exact ⟨rfl, hlines.1.symm, hline.symm, hlines.2.symm⟩

section Changed

variable {source : Bytes} (hchanged : retab source ≠ source)
  (hcr : cr ∉ (Opening.ofDocument source).margin)

include hchanged hcr

theorem exists_cutAtMargin : ∃ front x y back, CutAtMargin source front x y back := by
  rcases exists_lines_retab hchanged hcr with
    ⟨front, x, y, back, hsource, hformatted, hstart, -, -⟩
  refine ⟨front, x, y, back, ?_, hstart, ?_⟩
  · rw [hsource, List.append_assoc, List.singleton_append]
  · rw [hformatted, getElem?_replaced_length]

/-- The lines of a document and of its formatted form, before and behind the line that the
    margin stands on. Neither form of that line stands before it. -/
theorem CutAtMargin.lines {front : List Bytes} {x y : Bytes} {back : List Bytes}
    (h : CutAtMargin source front x y back) :
    Lines.split source = front ++ x :: back ∧ Lines.split (retab source) = front ++ y :: back ∧
      x ∉ front ∧ y ∉ front := by
  rcases exists_lines_retab hchanged hcr with
    ⟨front', x', y', back', hsource, hformatted, hstart, hx, hy⟩
  rcases h.eq_of_lines hsource hformatted hstart with ⟨rfl, rfl, rfl, rfl⟩
  exact ⟨hsource, hformatted, hx, hy⟩

/-- The line is replaced by another one, and neither stands among the blank lines. -/
theorem CutAtMargin.replaces {front : List Bytes} {x y : Bytes} {back : List Bytes}
    (h : CutAtMargin source front x y back) {later : List Bytes} (hx : x ∉ later)
    (hy : y ∉ later) : Replaces front later x y := by
  rcases h.lines hchanged hcr with ⟨hsource, hformatted, hx', hy'⟩
  refine ⟨?_, ?_, ?_⟩
  · rintro rfl
    exact hchanged (Lines.split_injective (hformatted.trans hsource.symm))
  · rw [List.mem_append, not_or]
    exact ⟨hx', hx⟩
  · rw [List.mem_append, not_or]
    exact ⟨hy', hy⟩

end Changed

/-- If no carriage return stands in the margin, the document can be cut at the line that the
    margin stands on. If moreover neither form of that line stands further down and no line of
    the formatted document is popular, the patch shows the line in both forms, between the three
    lines before it and the three behind, or as many as there are. -/
theorem unified_retab {source : Bytes} (hchanged : retab source ≠ source)
    (hcr : cr ∉ (Opening.ofDocument source).margin) :
    (∃ front x y back, CutAtMargin source front x y back) ∧
      ∀ front x y back, CutAtMargin source front x y back → x ∉ back → y ∉ back →
        NonePopular (Lines.split (retab source)) →
        ∀ name, unified source (retab source) name = Patch.replacement name front x y back := by
  refine ⟨exists_cutAtMargin hchanged hcr, ?_⟩
  intro front x y back hcut hx hy hrare name
  rcases hcut.lines hchanged hcr with ⟨hsource, hformatted, -, -⟩
  refine unified_replaced hsource hformatted (hcut.replaces hchanged hcr hx hy) ?_ name
  intro hback
  rcases List.exists_mem_of_ne_nil _ hback with ⟨l, hl⟩
  refine ⟨l, hl, ?_⟩
  rw [popularLines_eq_nil hrare]
  exact List.not_mem_nil

/-- Blank lines that repeat before and behind the line replaced, and a last line without an
    end. -/
theorem unified_retab_blankLines :
    let source := ofAscii "\n\n\n\n  a\n\n\nb"
    retab source ≠ source ∧ cr ∉ (Opening.ofDocument source).margin ∧
      unified source (retab source) (ofAscii "a.conf") =
        ofAscii "--- a/a.conf\n+++ b/a.conf\n@@ -2,7 +2,7 @@\n \n \n \n-  a\n+\ta\n \n \n b" ++
          Patch.unfinished := by
  intro source
  have hchanged : retab source ≠ source := by decide
  have hcr : cr ∉ (Opening.ofDocument source).margin := by decide
  have hcut : CutAtMargin source [[lf], [lf], [lf], [lf]] (ofAscii "  a\n") (ofAscii "\ta\n")
      [[lf], [lf], ofAscii "b"] := ⟨by decide, by decide, by decide⟩
  refine ⟨hchanged, hcr, ?_⟩
  rw [(unified_retab hchanged hcr).2 _ _ _ _ hcut (by decide) (by decide) (.inl (by decide))]
  decide

end Diff

end ConfIndent
