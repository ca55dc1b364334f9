import ConfIndent.Proofs.Diff.Retab
import ConfIndent.Proofs.Locality

/-!
# What Stands Far Behind a Change

A patch shows three lines behind the line that formatting replaces, so text put behind a
document should not change its patch. It need not come to that. A block starts from a line
that is not popular, and whether the lines behind the one replaced are popular is up to the
whole text. While one of them is not, the block reaches to the end of the text and the
patch keeps all of them. Once all of them are popular the block behind the line is never
found: the patch takes away everything from the line on and puts it back.

The two kinds of patch are never the same, and a patch of the second kind shows the whole
text from the line on. So the patch of a document that goes on is the patch of the document
exactly if both are of the first kind, or if nothing was put behind.

## Main definitions

* `Rare`: A line that is not popular.
* `restatedHunk`: The hunk that shows one line replaced and all lines behind it put back.

## Theorems

* `scriptAvoiding_restated`: The script between texts with popular lines behind the change.
* `hunks_restated`: The hunk between such texts.
* `changes_eq_of_unified`: Equal patches show equal hunks.
* `changes_followed_iff`: When lines put behind leave the hunks as they are.
* `unified_retab_followed`: When text put behind a document leaves its patch as it is.
-/

namespace ConfIndent.Diff

open Bytes

variable {α : Type}

section Popular

variable [DecidableEq α]

/-- A line that is not popular: the text has few lines, or the line makes up no more than
    about a hundredth of it. -/
def Rare (new : List α) (l : α) : Prop :=
  new.length < 200 ∨ new.count l ≤ new.length / 100 + 1

instance (new : List α) (l : α) : Decidable (Rare new l) :=
  inferInstanceAs (Decidable (_ ∨ _))

/-- Popular are the lines of the new text that are not rare. -/
theorem mem_popularLines_iff {new : List α} {l : α} :
    l ∈ popularLines new ↔ l ∈ new ∧ ¬Rare new l := by
  rw [popularLines, Rare, not_or, Nat.not_le, Nat.not_lt]
  split
  · rename_i hfew
    rw [popularThreshold] at hfew
    refine iff_of_false List.not_mem_nil ?_
    rintro ⟨-, hmany, -⟩
    omega
  · rename_i hmany
    rw [popularThreshold, Nat.not_lt] at hmany
    rw [List.mem_eraseDups, List.mem_filter, decide_eq_true_eq]
    exact and_congr_right fun _ => (and_iff_right hmany).symm

/-- If all lines behind the one replaced are popular, the script keeps the lines before it
    and removes and adds all others. -/
theorem scriptAvoiding_restated {front back : List α} {x y : α} (h : Replaces front back x y)
    {popular : List α} (hback : ∀ l ∈ back, l ∈ popular) :
    scriptAvoiding popular (front ++ x :: back) (front ++ y :: back) =
      front.map .kept ++ ((x :: back).map .removed ++ (y :: back).map .added) := by
  -- No block stands behind the line, so the one taken stands before it.
  have hblock : ∀ {front : List α}, Replaces front back x y →
      longestBlock popular (front ++ x :: back) (front ++ y :: back) = ⟨0, 0, front.length⟩ := by
    intro front h
    rcases longestBlock_replaced h popular with ⟨hb, -⟩ | ⟨-, l, hl, hrare⟩
    · exact hb
    · exact absurd (hback l hl) hrare
  have hrest : scriptAvoiding popular (x :: back) (y :: back) =
      (x :: back).map .removed ++ (y :: back).map .added :=
    scriptAvoiding_of_empty (hblock h.drop_front)
  rcases front with _ | ⟨l, front⟩
  · exact hrest
  · rw [scriptAvoiding_of_block (hblock h) (Nat.succ_ne_zero _), List.take_zero, List.take_zero,
      List.drop_zero, Nat.zero_add, List.take_left, List.drop_left, List.drop_left,
      scriptAvoiding_nil, hrest, List.nil_append]

end Popular

/-- A script that keeps nothing is a single section. -/
theorem sections_changes {marks : List (Mark α)} (hne : marks ≠ [])
    (hmarks : ∀ m ∈ marks, m.isKept = false) : sections marks = ([⟨[], marks⟩], []) := by
  induction marks with
  | nil => exact absurd rfl hne
  | cons m marks ih =>
    have hm := hmarks m List.mem_cons_self
    rw [sections, List.foldr_cons, ← sections]
    rcases marks with _ | ⟨n, marks⟩
    · cases m with
      | kept l => exact absurd hm.symm Bool.false_ne_true
      | removed l => rfl
      | added l => rfl
    · rw [ih (List.cons_ne_nil _ _) fun m hm => hmarks m (List.mem_cons_of_mem _ hm)]
      cases m with
      | kept l => exact absurd hm.symm Bool.false_ne_true
      | removed l => rfl
      | added l => rfl

/-- The hunk that shows one line replaced and all lines behind it put back. -/
def restatedHunk (front : List α) (x y : α) (back : List α) : Hunk α :=
  let skipped := front.length - contextLines
  ⟨skipped, skipped, (front.drop skipped).map .kept ++
    ((x :: back).map .removed ++ (y :: back).map .added)⟩

/-- The one hunk of a script that keeps nothing from a line on. -/
theorem hunks_restated (front : List α) (x y : α) (back : List α) :
    hunks (front.map .kept ++ ((x :: back).map .removed ++ (y :: back).map .added)) =
      [restatedHunk front x y back] := by
  have hmarks : ∀ m ∈ (x :: back).map Mark.removed ++ (y :: back).map .added,
      m.isKept = false := by
    intro m hm
    rcases List.mem_append.1 hm with hm | hm
    · rcases List.mem_map.1 hm with ⟨l, -, rfl⟩
      rfl
    · rcases List.mem_map.1 hm with ⟨l, -, rfl⟩
      rfl
  have hne : (x :: back).map Mark.removed ++ (y :: back).map Mark.added ≠ [] :=
    List.cons_ne_nil _ _
  have hchanges := sections_changes hne hmarks
  rw [hunks, sections_kept_append front hchanges]
  simp only [List.append_nil, following, List.take_nil, List.map_nil]
  rfl

/-- The hunk shows the whole text from its first line on. -/
theorem restatedHunk_injective {front back back' : List α} {x y : α}
    (h : restatedHunk front x y back = restatedHunk front x y back') : back = back' := by
  have hold := congrArg (fun h => oldSide (Hunk.marks h)) h
  simp only [restatedHunk, oldSide_append, oldSide_map_kept, oldSide_map_removed,
    oldSide_map_added, List.append_nil, List.append_right_inj, List.cons_eq_cons] at hold
  exact hold.2

/-- One hunk adds where the other goes on removing. -/
theorem replacedHunk_ne_restatedHunk {front back back' : List α} {x y : α} (hne : back' ≠ []) :
    replacedHunk front x y back ≠ restatedHunk front x y back' := by
  rcases List.exists_cons_of_ne_nil hne with ⟨l, rest, rfl⟩
  intro h
  have hmarks := congrArg Hunk.marks h
  simp only [replacedHunk, restatedHunk, List.append_assoc, List.append_right_inj, List.map_cons,
    List.cons_append, List.nil_append, List.cons_eq_cons, reduceCtorEq, false_and,
    and_false] at hmarks

/-- Lines behind the context do not show. -/
theorem replacedHunk_append {back : List α} (hback : 3 ≤ back.length) (front : List α) (x y : α)
    (later : List α) :
    replacedHunk front x y (back ++ later) = replacedHunk front x y back := by
  have htake : (back ++ later).take contextLines = back.take contextLines :=
    List.take_append_of_le_length hback
  rw [replacedHunk, replacedHunk, htake]

section Texts

variable {old new : Bytes} {front back : List Bytes} {x y : Bytes}

/-- The one hunk between two texts that differ in a line. -/
theorem changes_eq (hold : Lines.split old = front ++ x :: back)
    (hnew : Lines.split new = front ++ y :: back) (h : Replaces front back x y) :
    changes old new =
      if ∃ l ∈ back, Rare (Lines.split new) l then [replacedHunk front x y back]
      else [restatedHunk front x y back] := by
  split
  · rename_i hrare
    rcases hrare with ⟨l, hl, hrare⟩
    exact changes_replaced hold hnew h fun _ =>
      ⟨l, hl, fun hpopular => (mem_popularLines_iff.1 hpopular).2 hrare⟩
  · rename_i hrare
    have hpopular : ∀ l ∈ back, l ∈ popularLines (front ++ y :: back) := by
      intro l hl
      rw [← hnew, mem_popularLines_iff]
      refine ⟨?_, fun h => hrare ⟨l, hl, h⟩⟩
      rw [hnew]
      exact List.mem_append_right _ (List.mem_cons_of_mem _ hl)
    rw [changes, script, hold, hnew, scriptAvoiding_restated h hpopular, hunks_restated]

/-- Equal patches show equal hunks. -/
theorem changes_eq_of_unified {old' new' name : Bytes}
    (h : unified old new name = unified old' new' name) (hne : old ≠ new) (hne' : old' ≠ new') :
    changes old new = changes old' new' := by
  have hread : ∀ old new : Bytes,
      Patch.readBody (Patch.cut ((changes old new).flatMap Patch.hunk)) =
        some ([], changes old new) := fun old new =>
    (Patch.reads_hunks fun _ hh _ hm => Patch.unbroken_of_mem_changes hh hm).1
  rw [unified, unified, if_neg hne, if_neg hne', List.append_right_inj] at h
  have hread' := hread old new
  rw [h, hread old' new', Option.some_inj, Prod.mk.injEq] at hread'
  exact hread'.2.symm

variable {old' new' : Bytes} {later : List Bytes}

/-- Lines put behind leave the hunks of two texts as they are if some line behind the one
    replaced is rare both in the shorter text and in the longer, and otherwise only if there
    are none. -/
theorem changes_followed_iff (hold : Lines.split old = front ++ x :: back)
    (hnew : Lines.split new = front ++ y :: back)
    (hold' : Lines.split old' = front ++ x :: (back ++ later))
    (hnew' : Lines.split new' = front ++ y :: (back ++ later))
    (h : Replaces front (back ++ later) x y) (hback : 3 ≤ back.length) :
    changes old' new' = changes old new ↔
      later = [] ∨ (∃ l ∈ back, Rare (Lines.split new) l) ∧
        ∃ l ∈ back ++ later, Rare (Lines.split new') l := by
  by_cases hmore : later = []
  · refine iff_of_true ?_ (.inl hmore)
    rw [changes, changes, hold', hnew', hold, hnew, hmore, List.append_nil]
  · have hshort : Replaces front back x y := by
      refine ⟨h.ne, fun hx => h.old_not_mem ?_, fun hy => h.new_not_mem ?_⟩
      · rw [← List.append_assoc]
        exact List.mem_append_left _ hx
      · rw [← List.append_assoc]
        exact List.mem_append_left _ hy
    have hne : back ≠ [] := List.ne_nil_of_length_pos (by omega)
    have hne' : back ++ later ≠ [] := List.append_ne_nil_of_left_ne_nil hne _
    rw [changes_eq hold' hnew' h, changes_eq hold hnew hshort, or_iff_right hmore]
    by_cases hrare : ∃ l ∈ back, Rare (Lines.split new) l
    · by_cases hrare' : ∃ l ∈ back ++ later, Rare (Lines.split new') l
      · rw [if_pos hrare, if_pos hrare', replacedHunk_append hback]
        exact iff_of_true rfl ⟨hrare, hrare'⟩
      · rw [if_pos hrare, if_neg hrare', List.singleton_inj]
        exact iff_of_false (replacedHunk_ne_restatedHunk hne').symm fun h => hrare' h.2
    · -- The lines put behind show in the longer text, whichever kind its patch is of.
      refine iff_of_false ?_ fun h => hrare h.1
      rw [if_neg hrare]
      split
      · rw [List.singleton_inj]
        exact replacedHunk_ne_restatedHunk hne
      · rw [List.singleton_inj]
        intro heq
        exact hmore (List.append_right_eq_self.1 (restatedHunk_injective heq))

end Texts

section Documents

variable {source : Bytes} (hended : source.getLast? = some lf) (hchanged : retab source ≠ source)

include hended hchanged

/-- A document that ends with a line feed and is changed holds code. -/
theorem exists_code : ∃ b ∈ source, isBlank b = false := by
  refine Decidable.byContradiction fun hnone => hchanged ?_
  -- All blank up to the line feed at its end, the document has nothing for a margin.
  have hblank : ∀ b ∈ source, isBlank b := by
    intro b hb
    rw [← Bool.not_eq_false]
    exact fun hsolid => hnone ⟨b, hb, hsolid⟩
  have hrun : source.takeWhile isBlank = source := by
    have hrun : (source ++ []).takeWhile isBlank = source ++ [].takeWhile isBlank :=
      List.takeWhile_append_of_pos hblank
    rwa [List.takeWhile_nil, List.append_nil] at hrun
  have hmargin : (Opening.ofDocument source).margin = [] := by
    rcases List.getLast?_eq_some_iff.1 hended with ⟨body, hbody⟩
    rw [Opening.ofDocument, hrun, Opening.afterLastLine, hbody, List.reverse_concat,
      List.takeWhile_cons_of_neg (by decide), List.reverse_nil]
  rw [retab_eq_self_iff, hmargin]
  exact fun b hb => absurd hb List.not_mem_nil

theorem ofDocument_append (more : Bytes) :
    Opening.ofDocument (source ++ more) = (Opening.ofDocument source).followed more :=
  Opening.ofDocument_followed (exists_code hended hchanged) more

theorem retab_append (more : Bytes) : retab (source ++ more) = retab source ++ more := by
  rw [retab, ofDocument_append hended hchanged, Opening.retab_followed, ← retab]

/-- The last line feed is left in place. -/
theorem getLast?_retab : (retab source).getLast? = some lf := by
  have hrest := Opening.rest_ne_nil (exists_code hended hchanged)
  have hlast : ∀ front : Bytes, (front ++ (Opening.ofDocument source).rest).getLast? =
      (Opening.ofDocument source).rest.getLast? := by
    intro front
    rw [List.getLast?_append, List.getLast?_eq_some_getLast hrest, Option.some_or]
  rw [← Opening.text_ofDocument source, Opening.text, hlast] at hended
  rw [retab, Opening.retab, hlast, hended]

/-- The lines of a text put behind the document stand behind the lines it has. -/
theorem CutAtMargin.followed {front back : List Bytes} {x y : Bytes}
    (h : CutAtMargin source front x y back) (more : Bytes) :
    CutAtMargin (source ++ more) front x y (back ++ Lines.split more) := by
  refine ⟨?_, ?_, ?_⟩
  · rw [Lines.split_append_of_ended (.inr hended), h.source_lines, List.append_assoc]
  · rw [ofDocument_append hended hchanged]
    exact h.line_start
  · have hline := h.formatted_line
    have hlt := (List.getElem?_eq_some_iff.1 hline).1
    rw [retab_append hended hchanged,
      Lines.split_append_of_ended (.inr (getLast?_retab hended hchanged)),
      List.getElem?_append_left hlt, hline]

variable (hcr : cr ∉ (Opening.ofDocument source).margin)

include hcr

/-- When text put behind a document leaves the hunks of its patch as they are. -/
theorem changes_retab_followed_iff {front back : List Bytes} {x y : Bytes}
    (hcut : CutAtMargin source front x y back) (more : Bytes) (hback : 3 ≤ back.length)
    (hx : x ∉ back ++ Lines.split more) (hy : y ∉ back ++ Lines.split more) :
    changes (source ++ more) (retab (source ++ more)) = changes source (retab source) ↔
      more = [] ∨ (∃ l ∈ back, Rare (Lines.split (retab source)) l) ∧
        ∃ l ∈ back ++ Lines.split more, Rare (Lines.split (retab (source ++ more))) l := by
  rcases hcut.lines hchanged hcr with ⟨hsource, hformatted, -, -⟩
  have hsource' : Lines.split (source ++ more) = front ++ x :: (back ++ Lines.split more) := by
    rw [Lines.split_append_of_ended (.inr hended), hsource, List.append_assoc, List.cons_append]
  have hformatted' : Lines.split (retab (source ++ more)) =
      front ++ y :: (back ++ Lines.split more) := by
    rw [retab_append hended hchanged,
      Lines.split_append_of_ended (.inr (getLast?_retab hended hchanged)), hformatted,
      List.append_assoc, List.cons_append]
  have hnil : Lines.split more = [] ↔ more = [] := by
    refine ⟨fun h => Lines.split_injective h, ?_⟩
    rintro rfl
    rfl
  rw [changes_followed_iff hsource hformatted hsource' hformatted'
    (hcut.replaces hchanged hcr hx hy) hback, hnil]

/-- When text put behind a document leaves its patch as it is. -/
theorem unified_retab_followed_iff {front back : List Bytes} {x y : Bytes}
    (hcut : CutAtMargin source front x y back) (more : Bytes) (hback : 3 ≤ back.length)
    (hx : x ∉ back ++ Lines.split more) (hy : y ∉ back ++ Lines.split more) (name : Bytes) :
    unified (source ++ more) (retab (source ++ more)) name =
        unified source (retab source) name ↔
      more = [] ∨ (∃ l ∈ back, Rare (Lines.split (retab source)) l) ∧
        ∃ l ∈ back ++ Lines.split more, Rare (Lines.split (retab (source ++ more))) l := by
  have hchanged' : retab (source ++ more) ≠ source ++ more := by
    rw [retab_append hended hchanged, ne_eq, List.append_left_inj]
    exact hchanged
  rw [← changes_retab_followed_iff hended hchanged hcr hcut more hback hx hy]
  refine ⟨fun h => changes_eq_of_unified h (Ne.symm hchanged') (Ne.symm hchanged), fun h => ?_⟩
  rw [unified, unified, if_neg (Ne.symm hchanged'), if_neg (Ne.symm hchanged), h]

end Documents

/-- A document that ends with a line feed, is changed and has no carriage return in its
    margin can be cut at the line that the margin stands on, and text put behind the document
    goes to the lines behind. With three lines behind the line, and neither form of it among
    them or in the text put behind, the patch stays the same exactly if that text is empty, or
    if some line behind the one replaced is not popular, now and before. -/
theorem unified_retab_followed (source more : Bytes) (hended : source.getLast? = some lf)
    (hchanged : retab source ≠ source) (hcr : cr ∉ (Opening.ofDocument source).margin) :
    (∃ front x y back, CutAtMargin source front x y back) ∧
      ∀ front x y back, CutAtMargin source front x y back →
        CutAtMargin (source ++ more) front x y (back ++ Lines.split more) ∧
          (3 ≤ back.length → x ∉ back ++ Lines.split more → y ∉ back ++ Lines.split more →
            ∀ name, unified (source ++ more) (retab (source ++ more)) name =
                unified source (retab source) name ↔
              more = [] ∨ (∃ l ∈ back, Rare (Lines.split (retab source)) l) ∧
                ∃ l ∈ back ++ Lines.split more,
                  Rare (Lines.split (retab (source ++ more))) l) := by
  refine ⟨exists_cutAtMargin hchanged hcr, ?_⟩
  intro front x y back hcut
  refine ⟨hcut.followed hended hchanged more, ?_⟩
  intro hback hx hy name
  exact unified_retab_followed_iff hended hchanged hcr hcut more hback hx hy name

/-- Lines that repeat before the document ends and in the text put behind it, which does not
    end its last line. -/
theorem unified_retab_followed_repeated :
    let source := ofAscii "  a\nb\nb\nc\n"
    let more := ofAscii "b\nc"
    source.getLast? = some lf ∧ retab source ≠ source ∧ cr ∉ (Opening.ofDocument source).margin ∧
      ∀ name, unified (source ++ more) (retab (source ++ more)) name =
        unified source (retab source) name := by
  intro source more
  have hended : source.getLast? = some lf := by decide
  have hchanged : retab source ≠ source := by decide
  have hcr : cr ∉ (Opening.ofDocument source).margin := by decide
  have hcut : CutAtMargin source [] (ofAscii "  a\n") (ofAscii "\ta\n")
      [ofAscii "b\n", ofAscii "b\n", ofAscii "c\n"] := ⟨by decide, by decide, by decide⟩
  refine ⟨hended, hchanged, hcr, fun name => ?_⟩
  have hiff := ((unified_retab_followed source more hended hchanged hcr).2 _ _ _ _ hcut).2
    (by decide) (by decide) (by decide) name
  exact hiff.2 (.inr ⟨by decide, by decide⟩)

/-- Put behind a document, repeated lines make the lines behind the one replaced popular, and
    the patch another one. -/
theorem unified_retab_followed_popular :
    let source := ofAscii "  a\nb\nb\nb\n"
    let more := (List.replicate 196 (ofAscii "b\n")).flatten
    source.getLast? = some lf ∧ retab source ≠ source ∧ cr ∉ (Opening.ofDocument source).margin ∧
      CutAtMargin source [] (ofAscii "  a\n") (ofAscii "\ta\n") (List.replicate 3 (ofAscii "b\n")) ∧
      ofAscii "  a\n" ∉ List.replicate 3 (ofAscii "b\n") ++ Lines.split more ∧
      ofAscii "\ta\n" ∉ List.replicate 3 (ofAscii "b\n") ++ Lines.split more ∧
      unified (source ++ more) (retab (source ++ more)) (ofAscii "x") ≠
        unified source (retab source) (ofAscii "x") := by
  intro source more
  have hended : source.getLast? = some lf := by decide
  have hchanged : retab source ≠ source := by decide
  have hcr : cr ∉ (Opening.ofDocument source).margin := by decide
  have hcut : CutAtMargin source [] (ofAscii "  a\n") (ofAscii "\ta\n")
      (List.replicate 3 (ofAscii "b\n")) := ⟨by decide, by decide, by decide⟩
  have hmore : Lines.split more = List.replicate 196 (ofAscii "b\n") := by decide +kernel
  have hx : ofAscii "  a\n" ∉ List.replicate 3 (ofAscii "b\n") ++ Lines.split more := by
    rw [hmore]
    decide +kernel
  have hy : ofAscii "\ta\n" ∉ List.replicate 3 (ofAscii "b\n") ++ Lines.split more := by
    rw [hmore]
    decide +kernel
  refine ⟨hended, hchanged, hcr, hcut, hx, hy, ?_⟩
  rw [ne_eq, unified_retab_followed_iff hended hchanged hcr hcut more (by decide) hx hy]
  rintro (hnil | ⟨-, l, hl, hrare⟩)
  · exact absurd hnil (by decide)
  · rw [hmore] at hl
    have hl' : l = ofAscii "b\n" := by
      rcases List.mem_append.1 hl with hl | hl
      · exact List.eq_of_mem_replicate hl
      · exact List.eq_of_mem_replicate hl
    rw [hl'] at hrare
    exact absurd hrare (by decide +kernel)

end ConfIndent.Diff
