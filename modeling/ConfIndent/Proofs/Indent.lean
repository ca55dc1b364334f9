import ConfIndent.Indent

/-!
# Formatting Twice

A formatted document is cut at the same places as its source. Only the margin is
rewritten, and tabs are as good a margin as any: they are blank and end no line.
So the cut of the formatted document is known, and that formatting it again
changes nothing is read off its margin.

The cut is characterized first. `Opening.Proper` says what it means for three
parts to lie where a document is cut, and putting such parts together and cutting
them again gives them back. That needs no look at the scan beyond the proof here.

## Main definitions

* `Opening.Proper`: The parts of a document that lie where it is cut.

## Theorems

* `Opening.proper_ofDocument`: A document is cut into proper parts.
* `Opening.ofDocument_text`: Proper parts are found again.
* `ofDocument_retab`: How a formatted document is cut.
* `retab_retab`: Formatting twice is formatting once.
-/

namespace ConfIndent

open Bytes

namespace Opening

/-- The parts lie where a document is cut: two blank runs, of which the first
    ends with a line and the second lies on one, and a rest that does not open
    with a blank. -/
structure Proper (o : Opening) : Prop where
  blankLines_blank : ∀ b ∈ o.blankLines, isBlank b
  blankLines_ended : o.blankLines.reverse.takeWhile (· != lf) = []
  margin_blank : ∀ b ∈ o.margin, isBlank b
  lf_not_mem : lf ∉ o.margin
  rest_takeWhile : o.rest.takeWhile isBlank = []

theorem takeWhile_dropWhile {α : Type} (p : α → Bool) (l : List α) :
    (l.dropWhile p).takeWhile p = [] := by
  induction l with
  | nil => rfl
  | cons x l ih =>
    by_cases hx : p x
    · rw [List.dropWhile_cons_of_pos hx, ih]
    · rw [List.dropWhile_cons_of_neg hx, List.takeWhile_cons_of_neg hx]

theorem isBlank_of_mem_run (source : Bytes) {b : UInt8}
    (h : b ∈ throughLastLine (source.takeWhile isBlank) ++
      afterLastLine (source.takeWhile isBlank)) : isBlank b := by
  rw [throughLastLine_append_afterLastLine] at h
  exact List.all_eq_true.1 List.all_takeWhile b h

/-- A document is cut into proper parts. -/
theorem proper_ofDocument (source : Bytes) : (ofDocument source).Proper where
  blankLines_blank := by
    intro b hb
    exact isBlank_of_mem_run source (List.mem_append_left _ hb)
  blankLines_ended := by
    rw [ofDocument, throughLastLine, List.reverse_reverse]
    exact takeWhile_dropWhile _ _
  margin_blank := by
    intro b hb
    exact isBlank_of_mem_run source (List.mem_append_right _ hb)
  lf_not_mem := lf_not_mem_margin source
  rest_takeWhile := takeWhile_dropWhile _ _

/-- Proper parts are found again when they are put together and cut. -/
theorem ofDocument_text {o : Opening} (h : o.Proper) : ofDocument o.text = o := by
  have hblank : ∀ b ∈ o.blankLines ++ o.margin, isBlank b := by
    intro b hb
    rcases List.mem_append.1 hb with hb | hb
    · exact h.blankLines_blank b hb
    · exact h.margin_blank b hb
  have hrun : o.text.takeWhile isBlank = o.blankLines ++ o.margin := by
    rw [text, List.takeWhile_append_of_pos hblank, h.rest_takeWhile, List.append_nil]
  have hrest : o.text.dropWhile isBlank = o.rest := by
    rw [text, List.dropWhile_append_of_pos hblank]
    have := List.takeWhile_append_dropWhile (p := isBlank) (l := o.rest)
    rwa [h.rest_takeWhile, List.nil_append] at this
  -- Read from its end, the run has the margin up to the first line feed it meets.
  have hmargin : ∀ b ∈ o.margin.reverse, (b != lf) = true := by
    intro b hb
    rw [bne_iff_ne]
    rintro rfl
    exact h.lf_not_mem (List.mem_reverse.1 hb)
  have hafter : afterLastLine (o.blankLines ++ o.margin) = o.margin := by
    rw [afterLastLine, List.reverse_append, List.takeWhile_append_of_pos hmargin,
      h.blankLines_ended, List.append_nil, List.reverse_reverse]
  have hthrough : throughLastLine (o.blankLines ++ o.margin) = o.blankLines := by
    have := throughLastLine_append_afterLastLine (o.blankLines ++ o.margin)
    rw [hafter] at this
    exact List.append_cancel_right this
  rw [ofDocument, hrun, hrest, hafter, hthrough]

/-- A margin of tabs only is worth as many tabs as it holds. -/
theorem tabs_replicate (blankLines rest : Bytes) (n : Nat) :
    tabs ⟨blankLines, List.replicate n tab, rest⟩ = n := by
  have hspace : space ∉ List.replicate n tab := by
    intro hmem
    exact absurd (List.eq_of_mem_replicate hmem) (by decide)
  rw [tabs, List.count_replicate_self, if_neg hspace]
  by_cases hn : n = 0
  · rw [if_pos hn, hn]
  · rw [if_neg hn]

end Opening

/-- A formatted document is cut where its source is. -/
theorem ofDocument_retab (source : Bytes) :
    Opening.ofDocument (retab source) =
      { Opening.ofDocument source with
        margin := List.replicate (Opening.ofDocument source).tabs tab } := by
  have h := Opening.proper_ofDocument source
  have hproper : Opening.Proper { Opening.ofDocument source with
      margin := List.replicate (Opening.ofDocument source).tabs tab } := by
    refine ⟨h.blankLines_blank, h.blankLines_ended, ?_, ?_, h.rest_takeWhile⟩
    · intro b hb
      rw [List.eq_of_mem_replicate hb]
      decide
    · intro hmem
      exact absurd (List.eq_of_mem_replicate hmem) (by decide)
  exact Opening.ofDocument_text hproper

/-- Formatting twice is formatting once. -/
@[simp] theorem retab_retab (source : Bytes) : retab (retab source) = retab source := by
  rw [retab, ofDocument_retab, Opening.retab, Opening.tabs_replicate]
  rfl

end ConfIndent
