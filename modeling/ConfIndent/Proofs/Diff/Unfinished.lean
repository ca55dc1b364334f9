import ConfIndent.Proofs.Diff.Distant
import ConfIndent.Proofs.Diff.Shape
import ConfIndent.Proofs.LineEnds

/-!
# Lines Without a Line Feed

Which lines of a patch the marker follows. It tells whoever cuts the patch at line feeds that
the line before it has none, and such a reader takes it for the last line of a file. For most
lines it is. A line that ends neither in a line feed nor in a carriage return has no line
behind it, and so a patch holds one such line of each text at the most.

A line that a bare carriage return ends is marked as well, wherever it stands, and then the
marker tells something that is not so. A reader that cuts the texts at line feeds, too, does
not find the lines of the patch in them. In a document whose carriage returns all stand
before line feeds there are no such lines. Its lines are what lies between line feeds, before
and after it is formatted, and the patch can be applied by that reader.

What is counted here is counted in the two sides of the hunks, whose lines are some of the
lines of the texts, in order.

## Main definitions

* `Lines.lacksEnd`: A line that neither a line feed nor a carriage return ends.
* `Lines.endsInCr`: A line that a bare carriage return ends.
* `Diff.LastLine`: A line that is the last of a text that is not ended by a line feed.
* `Diff.ClosesTexts`: A line of a hunk that is the last of each text it belongs to.

## Theorems

* `Lines.countP_lacksEnd_split`: No more than one line of a text lacks its end.
* `Lines.split_eq_cut`: Where no bare carriage return ends a line, line feeds do.
* `Diff.exists_of_mem_applyFrom`: A hunk that can be applied covers lines of both texts.
* `Patch.cut_unified`: What a printed patch has between line feeds.
* `exists_hunks_cut`: The hunks and the markers of a printed patch.
* `markers_of_retab`: The lines that the marker follows in the patch of a document.
-/

namespace ConfIndent

open Bytes

namespace Lines

/-- A bare carriage return ends the line. -/
def endsInCr (line : Bytes) : Bool :=
  line.getLast? == some cr

/-- Neither a line feed nor a carriage return ends the line. -/
def lacksEnd (line : Bytes) : Bool :=
  !endsInLf line && !endsInCr line

theorem endsInCr_of_not_lacksEnd {line : Bytes} (hlf : endsInLf line = false)
    (h : lacksEnd line = false) : endsInCr line = true := by
  rwa [lacksEnd, hlf, Bool.not_false, Bool.true_and, Bool.not_eq_false'] at h

theorem endsInLf_of_endsInCr {line : Bytes} (h : endsInCr line = true) :
    endsInLf line = false := by
  rw [endsInCr, beq_iff_eq] at h
  rw [endsInLf, h]
  rfl

theorem lacksEnd_of_mem_dropLast {text line : Bytes} (h : line ∈ (split text).dropLast) :
    lacksEnd line = false := by
  rcases ended_of_mem_dropLast h with ⟨body, b, rfl, rfl | rfl⟩
  · rw [lacksEnd, endsInLf, List.getLast?_concat]
    rfl
  · rw [lacksEnd, endsInCr, List.getLast?_concat]
    exact Bool.and_false _

/-- A text ends as its last line does. -/
theorem endsInLf_concat {text line : Bytes} {front : List Bytes}
    (h : split text = front ++ [line]) : endsInLf text = endsInLf line := by
  have hne : line ≠ [] :=
    ne_nil_of_mem_split (by rw [h]; exact List.mem_append_right _ List.mem_cons_self)
  rw [endsInLf, ← flatten_split text, h, List.flatten_append, List.flatten_singleton,
    List.getLast?_append, List.getLast?_eq_some_getLast hne, Option.some_or, endsInLf,
    List.getLast?_eq_some_getLast hne]

/-- No more than one line of a text lacks its end, and none if the text has one. -/
theorem countP_lacksEnd_split (text : Bytes) :
    (split text).countP lacksEnd ≤ if endsInLf text then 0 else 1 := by
  rcases List.eq_nil_or_concat (split text) with hnil | ⟨front, line, hlines⟩
  · rw [hnil]
    exact Nat.zero_le _
  rw [List.concat_eq_append] at hlines
  have hfront : front.countP lacksEnd = 0 := by
    rw [List.countP_eq_zero]
    intro l hl
    have hmem : l ∈ (split text).dropLast := by rwa [hlines, List.dropLast_concat]
    rw [lacksEnd_of_mem_dropLast hmem]
    exact Bool.false_ne_true
  rw [hlines, List.countP_append, hfront, List.countP_singleton, Nat.zero_add,
    endsInLf_concat hlines, lacksEnd]
  cases endsInLf line <;> cases endsInCr line <;> decide

theorem endsInCr_cons {b : UInt8} {line : Bytes} (h : line ≠ []) :
    endsInCr (b :: line) = endsInCr line := by
  rcases List.exists_cons_of_ne_nil h with ⟨c, line, rfl⟩
  rw [endsInCr, List.getLast?_cons_cons, endsInCr]

/-- Where no bare carriage return ends a line, the lines are what lies between line feeds. -/
theorem split_eq_cut {text : Bytes} (h : ∀ line ∈ split text, endsInCr line = false) :
    split text = Diff.Patch.cut text := by
  induction text with
  | nil => rfl
  | cons b rest ih =>
    rw [split] at h ⊢
    rw [Diff.Patch.cut]
    by_cases hends : endsLine b rest
    · rw [if_pos hends, List.forall_mem_cons] at h
      have hb : b = lf := by
        rw [endsLine, Bool.or_eq_true, beq_iff_eq, Bool.and_eq_true, beq_iff_eq] at hends
        refine hends.resolve_right fun hcr => ?_
        rw [hcr.1] at h
        exact absurd h.1 (by decide)
      rw [if_pos hends, if_pos hb, ih h.2, hb]
    · have hb : b ≠ lf := by
        rintro rfl
        exact hends (by rw [endsLine, beq_self_eq_true, Bool.true_or])
      rw [if_neg hends] at h
      rw [if_neg hends, if_neg hb, ih]
      -- The byte joins the first line of the rest, which ends as it did.
      intro line hline
      rcases hsplit : split rest with _ | ⟨first, others⟩
      · rw [hsplit] at hline
        exact absurd hline List.not_mem_nil
      · rw [hsplit, consFirst, List.forall_mem_cons] at h
        rw [hsplit] at hline
        rcases List.mem_cons.1 hline with rfl | hline
        · rw [endsInCr_cons (ne_nil_of_mem_split (by rw [hsplit]; exact List.mem_cons_self))] at h
          exact h.1
        · exact h.2 line hline

/-- The last byte of a line is part of its end, if it has one. -/
theorem endsInCr_ending (line : Bytes) : endsInCr (ending line) = endsInCr line := by
  have hcut : line.takeWhile (fun b => b != lf && b != cr) ++ ending line = line :=
    List.takeWhile_append_dropWhile
  by_cases hnil : ending line = []
  · -- Without an end the line holds no carriage return at all.
    have hcr : cr ∉ line := by
      rw [← hcut, hnil, List.append_nil]
      intro hmem
      have hopen := List.all_eq_true.1 List.all_takeWhile cr hmem
      exact absurd hopen (by decide)
    rw [hnil, endsInCr, endsInCr, List.getLast?_nil, Bool.eq_iff_iff, beq_iff_eq, beq_iff_eq]
    exact iff_of_false nofun fun h => hcr (List.mem_of_getLast? h)
  · rw [endsInCr, endsInCr, ← congrArg List.getLast? hcut, List.getLast?_append,
      List.getLast?_eq_some_getLast hnil, Option.some_or]

end Lines

theorem ReturnsPaired.tail {b : UInt8} {text : Bytes} (h : ReturnsPaired (b :: text)) :
    ReturnsPaired text := by
  intro i hi
  have hnext := h (i + 1) (by rwa [List.getElem?_cons_succ])
  rwa [List.getElem?_cons_succ] at hnext

/-- A carriage return that stands before a line feed ends no line. -/
theorem ReturnsPaired.endsInCr_eq_false {text : Bytes} (h : ReturnsPaired text) :
    ∀ line ∈ Lines.split text, Lines.endsInCr line = false := by
  induction text with
  | nil => exact fun line hline => absurd hline List.not_mem_nil
  | cons b rest ih =>
    have hrest := ih h.tail
    have hnext : b = cr → rest.head? = some lf := by
      rintro rfl
      have := h 0 rfl
      rwa [List.getElem?_cons_succ, ← List.head?_eq_getElem?] at this
    rw [Lines.split]
    by_cases hends : Lines.endsLine b rest
    · rw [if_pos hends]
      refine List.forall_mem_cons.2 ⟨?_, hrest⟩
      rw [Lines.endsLine, Bool.or_eq_true, beq_iff_eq, Bool.and_eq_true, beq_iff_eq,
        bne_iff_ne] at hends
      rcases hends with rfl | ⟨hcr, hhead⟩
      · rfl
      · exact absurd (hnext hcr) hhead
    · rw [if_neg hends]
      rcases hsplit : Lines.split rest with _ | ⟨first, others⟩
      · have hb : b ≠ cr := by
          intro hcr
          have hnil := Lines.flatten_split rest
          rw [hsplit] at hnil
          have hhead := hnext hcr
          rw [← hnil] at hhead
          cases hhead
        rw [consFirst, List.forall_mem_singleton, Lines.endsInCr, List.getLast?_singleton,
          Bool.eq_false_iff, ne_eq, beq_iff_eq, Option.some_inj]
        exact hb
      · rw [hsplit, List.forall_mem_cons] at hrest
        rw [consFirst]
        refine List.forall_mem_cons.2 ⟨?_, hrest.2⟩
        rw [Lines.endsInCr_cons (Lines.ne_nil_of_mem_split
          (by rw [hsplit]; exact List.mem_cons_self))]
        exact hrest.1

/-- Nor does one in the formatted document. -/
theorem ReturnsPaired.endsInCr_retab_eq_false {source : Bytes} (h : ReturnsPaired source) :
    ∀ line ∈ Lines.split (retab source), Lines.endsInCr line = false := by
  intro line hline
  have hends := map_ending_split_retab h.cr_not_mem_margin
  have hmem : Lines.ending line ∈ (Lines.split source).map Lines.ending := by
    rw [← hends]
    exact List.mem_map_of_mem hline
  rcases List.mem_map.1 hmem with ⟨line', hline', hending⟩
  rw [← Lines.endsInCr_ending, ← hending, Lines.endsInCr_ending]
  exact h.endsInCr_eq_false line' hline'

/-- The last line feed of a document is no part of its margin. -/
theorem endsInLf_retab {source : Bytes} (h : Lines.endsInLf source = true) :
    Lines.endsInLf (retab source) = true := by
  by_cases hchanged : retab source = source
  · rwa [hchanged]
  · rw [Lines.endsInLf, beq_iff_eq] at h ⊢
    exact Diff.getLast?_retab h hchanged

namespace Diff

section Sides

variable {α : Type} [DecidableEq α]

/-- A hunk that can be applied covers lines of both texts, from where it starts. -/
theorem exists_of_mem_applyFrom {i j : Nat} {hs : List (Hunk α)} {old new : List α}
    (happly : applyFrom i j hs old = some new) {h : Hunk α} (hh : h ∈ hs) :
    (∃ before behind, old = before ++ oldSide h.marks ++ behind ∧
      h.oldStart = i + before.length) ∧
    ∃ before behind, new = before ++ newSide h.marks ++ behind ∧
      h.newStart = j + before.length := by
  induction hs generalizing i j old new with
  | nil => exact absurd hh List.not_mem_nil
  | cons k hs ih =>
    rcases exists_of_applyFrom happly with ⟨gap, text, rest, rfl, rfl, hold, hnew, hrest⟩
    rcases List.mem_cons.1 hh with rfl | hh
    · exact ⟨⟨gap, text, rfl, hold⟩, gap, rest, rfl, hnew⟩
    · rcases ih hrest hh with ⟨⟨before, behind, rfl, hstart⟩, before', behind', rfl, hstart'⟩
      refine ⟨⟨gap ++ oldSide k.marks ++ before, behind, ?_, ?_⟩,
        gap ++ newSide k.marks ++ before', behind', ?_, ?_⟩
      · simp only [List.append_assoc]
      · rw [hstart, hold, List.length_append, List.length_append, Hunk.oldSize]
        omega
      · simp only [List.append_assoc]
      · rw [hstart', hnew, List.length_append, List.length_append, Hunk.newSize]
        omega

/-- The old lines of hunks that can be applied are some lines of the old text, and their new
    lines are some of the new. -/
theorem sublist_of_applyFrom {i j : Nat} {hs : List (Hunk α)} {old new : List α}
    (happly : applyFrom i j hs old = some new) :
    (oldSide (hs.flatMap Hunk.marks)).Sublist old ∧
      (newSide (hs.flatMap Hunk.marks)).Sublist new := by
  induction hs generalizing i j old new with
  | nil => exact ⟨List.nil_sublist _, List.nil_sublist _⟩
  | cons h hs ih =>
    rcases exists_of_applyFrom happly with ⟨gap, text, rest, rfl, rfl, -, -, hrest⟩
    have hsub := ih hrest
    rw [List.flatMap_cons, oldSide_append, newSide_append]
    exact ⟨(List.sublist_append_right _ _).append hsub.1,
      (List.sublist_append_right _ _).append hsub.2⟩

end Sides

/-- A line of a hunk stands in one of its sides at least. -/
theorem countP_signed_le (p : Bytes → Bool) (marks : List (Mark Bytes)) :
    marks.countP (fun m => p (Patch.signed m).2) ≤
      (oldSide marks).countP p + (newSide marks).countP p := by
  induction marks with
  | nil => exact Nat.zero_le _
  | cons m marks ih =>
    cases m with
    | kept l =>
      simp only [oldSide, newSide, List.filterMap_cons, Mark.old?, Mark.new?, List.countP_cons,
        Patch.signed] at ih ⊢
      omega
    | removed l =>
      simp only [oldSide, newSide, List.filterMap_cons, Mark.old?, Mark.new?, List.countP_cons,
        Patch.signed] at ih ⊢
      omega
    | added l =>
      simp only [oldSide, newSide, List.filterMap_cons, Mark.old?, Mark.new?, List.countP_cons,
        Patch.signed] at ih ⊢
      omega

namespace Patch

/-- A marker follows the lines that do not end in a line feed. -/
theorem marker_mem_parts_iff (m : Mark Bytes) :
    marker ∈ parts m ↔ Lines.endsInLf (signed m).2 = false := by
  rw [parts]
  by_cases hlf : Lines.endsInLf (signed m).2 = true
  · rw [if_pos hlf, List.mem_singleton, hlf]
    exact iff_of_false (Ne.symm (signed_ne_marker m _)) Bool.noConfusion
  · rw [if_neg hlf]
    rw [Bool.not_eq_true] at hlf
    exact iff_of_true (List.mem_cons_of_mem _ List.mem_cons_self) hlf

theorem count_marker_parts (m : Mark Bytes) :
    (parts m).count marker = if Lines.endsInLf (signed m).2 then 0 else 1 := by
  rw [parts]
  by_cases hlf : Lines.endsInLf (signed m).2
  · rw [if_pos hlf, if_pos hlf, List.count_cons_of_ne (signed_ne_marker m _), List.count_nil]
  · rw [if_neg hlf, if_neg hlf, List.cons_append, List.count_cons_of_ne (signed_ne_marker m _),
      List.count_singleton_self]

-- A line without a line feed is ended by a carriage return or not at all.
theorem count_marker_flatMap_parts (marks : List (Mark Bytes)) :
    (marks.flatMap parts).count marker =
      marks.countP (fun m => Lines.lacksEnd (signed m).2) +
        marks.countP fun m => Lines.endsInCr (signed m).2 := by
  induction marks with
  | nil => rfl
  | cons m marks ih =>
    rw [List.flatMap_cons, List.count_append, ih, count_marker_parts, List.countP_cons,
      List.countP_cons, Lines.lacksEnd]
    rcases hcr : Lines.endsInCr (signed m).2
    · cases Lines.endsInLf (signed m).2 <;>
        simp only [Bool.not_false, Bool.not_true, Bool.and_true, if_true, if_false,
          Bool.false_eq_true] <;> omega
    · rw [Lines.endsInLf_of_endsInCr hcr]
      simp only [Bool.not_false, Bool.not_true, Bool.and_false, if_true, if_false,
        Bool.false_eq_true]
      omega

/-- Hunks are cut into their headers and the parts of their lines. -/
theorem cut_hunks {hs : List (Hunk Bytes)}
    (hlines : ∀ h ∈ hs, ∀ m ∈ h.marks, Unbroken (signed m).2) :
    cut (hs.flatMap hunk) = hs.flatMap fun h => header h :: h.marks.flatMap parts := by
  have hmarks {marks : List (Mark Bytes)} (hmarks : ∀ m ∈ marks, Unbroken (signed m).2)
      (text : Bytes) : cut (marks.flatMap line ++ text) = marks.flatMap parts ++ cut text := by
    induction marks with
    | nil => rfl
    | cons m marks ih =>
      rw [List.forall_mem_cons] at hmarks
      rw [List.flatMap_cons, List.append_assoc, cut_line hmarks.1, ih hmarks.2, List.flatMap_cons,
        List.append_assoc]
  induction hs with
  | nil => rfl
  | cons h hs ih =>
    rw [List.forall_mem_cons] at hlines
    rw [List.flatMap_cons, hunk, List.append_assoc, cut_oneLine (oneLine_header h),
      hmarks hlines.1, ih hlines.2, List.flatMap_cons, List.cons_append]

/-- What a printed patch has between line feeds: the labels, the headers, and the lines with
    the markers behind them. -/
theorem cut_unified (old new : Bytes) {name : Bytes} (hname : lf ∉ name) :
    cut (unified old new name) =
      if old = new then []
      else labelParts name ++
        (changes old new).flatMap fun h => header h :: h.marks.flatMap parts := by
  rw [unified]
  split
  · rfl
  · rw [cut_labels hname, cut_hunks fun h hh m hm => unbroken_of_mem_changes hh hm]

theorem count_marker_hunks (hs : List (Hunk Bytes)) :
    (hs.flatMap fun h => header h :: h.marks.flatMap parts).count marker =
      ((hs.flatMap Hunk.marks).flatMap parts).count marker := by
  induction hs with
  | nil => rfl
  | cons h hs ih =>
    rw [List.flatMap_cons, List.cons_append, List.count_cons_of_ne (header_ne_marker h),
      List.count_append, ih, List.flatMap_cons, List.flatMap_append, List.count_append]

-- A label is no marker, as it opens with hyphens or with plus signs.
theorem count_marker_labelParts (name : Bytes) : (labelParts name).count marker = 0 := by
  rw [List.count_eq_zero, labelParts, List.mem_cons, List.mem_singleton, not_or]
  constructor
  · intro h
    have hhead : some (92 : UInt8) = some 45 := congrArg List.head? h
    exact absurd hhead (by decide)
  · intro h
    have hhead : some (92 : UInt8) = some 43 := congrArg List.head? h
    exact absurd hhead (by decide)

end Patch

/-- The line behind `i` lines is the last of a text that is not ended by a line feed. -/
def LastLine (text : Bytes) (i : Nat) (l : Bytes) : Prop :=
  (Lines.split text).drop i = [l] ∧ Lines.endsInLf text = false

theorem LastLine.endsInLf_eq {text : Bytes} {i : Nat} {l : Bytes} (h : LastLine text i l) :
    Lines.endsInLf l = false := by
  have hlines : Lines.split text = (Lines.split text).take i ++ [l] := by
    rw [← h.1, List.take_append_drop]
  rw [← Lines.endsInLf_concat hlines, h.2]

-- A line behind which there is another has an end.
theorem lastLine_of_lacksEnd {text : Bytes} {i : Nat} {l : Bytes} {rest : List Bytes}
    (h : (Lines.split text).drop i = l :: rest) (hl : Lines.lacksEnd l = true) :
    LastLine text i l := by
  have hlines : Lines.split text = (Lines.split text).take i ++ l :: rest := by
    rw [← h, List.take_append_drop]
  rcases rest with _ | ⟨next, rest⟩
  · refine ⟨h, ?_⟩
    rw [Lines.endsInLf_concat hlines]
    rw [Lines.lacksEnd, Bool.and_eq_true, Bool.not_eq_true'] at hl
    exact hl.1
  · have hmem : l ∈ (Lines.split text).dropLast := by
      rw [hlines, List.dropLast_append_of_ne_nil (List.cons_ne_nil _ _), List.dropLast_cons_cons]
      exact List.mem_append_right _ List.mem_cons_self
    rw [Lines.lacksEnd_of_mem_dropLast hmem] at hl
    exact absurd hl Bool.false_ne_true

/-- A line of a hunk, behind some others of it, is the last line of each text that it belongs
    to, and neither of these is ended by a line feed. -/
structure ClosesTexts (old new : Bytes) (h : Hunk Bytes) (front : List (Mark Bytes))
    (m : Mark Bytes) : Prop where
  old : ∀ l ∈ m.old?, LastLine old (h.oldStart + (oldSide front).length) l
  new : ∀ l ∈ m.new?, LastLine new (h.newStart + (newSide front).length) l

theorem ClosesTexts.endsInLf_eq {old new : Bytes} {h : Hunk Bytes} {front : List (Mark Bytes)}
    {m : Mark Bytes} (hm : ClosesTexts old new h front m) :
    Lines.endsInLf (Patch.signed m).2 = false := by
  cases m with
  | kept l => exact (hm.old l rfl).endsInLf_eq
  | removed l => exact (hm.old l rfl).endsInLf_eq
  | added l => exact (hm.new l rfl).endsInLf_eq

/-- The lines of a hunk are those that stand in the texts from where it starts. -/
theorem exists_drop_split {old new : Bytes} {h : Hunk Bytes} (hh : h ∈ changes old new)
    {front : List (Mark Bytes)} {m : Mark Bytes} {back : List (Mark Bytes)}
    (hmarks : h.marks = front ++ m :: back) :
    (∀ l ∈ m.old?, ∃ rest,
      (Lines.split old).drop (h.oldStart + (oldSide front).length) = l :: rest) ∧
    ∀ l ∈ m.new?, ∃ rest,
      (Lines.split new).drop (h.newStart + (newSide front).length) = l :: rest := by
  have happly := applyHunks_script (Lines.split old) (Lines.split new)
  rcases exists_of_mem_applyFrom happly hh with
    ⟨⟨before, behind, hold, hstart⟩, before', behind', hnew, hstart'⟩
  rw [Nat.zero_add] at hstart hstart'
  have hcons {lines before line rest : List Bytes} {l : Bytes}
      (hlines : lines = before ++ (line ++ l :: rest)) :
      lines.drop (before.length + line.length) = l :: rest := by
    rw [hlines, ← List.drop_drop, List.drop_left, List.drop_left]
  constructor
  · intro l hl
    refine ⟨oldSide back ++ behind, ?_⟩
    have hside : oldSide (m :: back) = l :: oldSide back := List.filterMap_cons_some hl
    rw [hmarks, oldSide_append, hside, List.append_assoc, List.append_assoc,
      List.cons_append] at hold
    rw [hstart, hcons hold]
  · intro l hl
    refine ⟨newSide back ++ behind', ?_⟩
    have hside : newSide (m :: back) = l :: newSide back := List.filterMap_cons_some hl
    rw [hmarks, newSide_append, hside, List.append_assoc, List.append_assoc,
      List.cons_append] at hnew
    rw [hstart', hcons hnew]

/-- The marker follows a line if it is the last of its text and has no line feed, or if a bare
    carriage return ends it, and only then. -/
theorem marker_mem_parts_iff_closesTexts {old new : Bytes} {h : Hunk Bytes}
    (hh : h ∈ changes old new) {front : List (Mark Bytes)} {m : Mark Bytes}
    {back : List (Mark Bytes)} (hmarks : h.marks = front ++ m :: back) :
    Patch.marker ∈ Patch.parts m ↔
      ClosesTexts old new h front m ∨ Lines.endsInCr (Patch.signed m).2 = true := by
  rw [Patch.marker_mem_parts_iff]
  rcases exists_drop_split hh hmarks with ⟨hold, hnew⟩
  have hlast {text l : Bytes} {i : Nat} (hdrop : ∃ rest, (Lines.split text).drop i = l :: rest)
      (hl : Lines.lacksEnd l = true) : LastLine text i l := by
    rcases hdrop with ⟨rest, hdrop⟩
    exact lastLine_of_lacksEnd hdrop hl
  constructor
  · intro hlf
    by_cases hlacks : Lines.lacksEnd (Patch.signed m).2 = true
    · refine .inl ⟨fun l hl => hlast (hold l hl) ?_, fun l hl => hlast (hnew l hl) ?_⟩
      · cases m <;> cases hl <;> exact hlacks
      · cases m <;> cases hl <;> exact hlacks
    · rw [Bool.not_eq_true] at hlacks
      exact .inr (Lines.endsInCr_of_not_lacksEnd hlf hlacks)
  · rintro (hcloses | hcr)
    · exact hcloses.endsInLf_eq
    · exact Lines.endsInLf_of_endsInCr hcr

/-- No more lines of a patch lack their end than the texts have such lines. -/
theorem countP_lacksEnd_le {hs : List (Hunk Bytes)} {old new : Bytes}
    (happly : applyHunks hs (Lines.split old) = some (Lines.split new)) :
    ((hs.flatMap Hunk.marks).countP fun m => Lines.lacksEnd (Patch.signed m).2) ≤
      (if Lines.endsInLf old then 0 else 1) + if Lines.endsInLf new then 0 else 1 := by
  have hsub := sublist_of_applyFrom happly
  have hsides := countP_signed_le Lines.lacksEnd (hs.flatMap Hunk.marks)
  have hold := Nat.le_trans hsub.1.countP_le (Lines.countP_lacksEnd_split old)
  have hnew := Nat.le_trans hsub.2.countP_le (Lines.countP_lacksEnd_split new)
  omega

/-- Where the carriage returns of a document stand before line feeds, no line of its patch ends
    in a bare one, and the lines of both texts are what lies between line feeds. -/
theorem countP_endsInCr_eq_zero {hs : List (Hunk Bytes)} {source : Bytes}
    (happly : applyHunks hs (Lines.split source) = some (Lines.split (retab source)))
    (hpaired : ReturnsPaired source) :
    ((hs.flatMap Hunk.marks).countP fun m => Lines.endsInCr (Patch.signed m).2) = 0 ∧
      applyHunks hs (Patch.cut source) = some (Patch.cut (retab source)) := by
  have hsource := hpaired.endsInCr_eq_false
  have hformatted := hpaired.endsInCr_retab_eq_false
  have hnone {lines : List Bytes} (hlines : ∀ line ∈ lines, Lines.endsInCr line = false) :
      lines.countP Lines.endsInCr = 0 := by
    rw [List.countP_eq_zero]
    intro line hline
    rw [hlines line hline]
    exact Bool.false_ne_true
  constructor
  · have hsub := sublist_of_applyFrom happly
    have hsides := countP_signed_le Lines.endsInCr (hs.flatMap Hunk.marks)
    have hold := hnone fun line hline => hsource line (hsub.1.subset hline)
    have hnew := hnone fun line hline => hformatted line (hsub.2.subset hline)
    omega
  · rw [← Lines.split_eq_cut hsource, ← Lines.split_eq_cut hformatted, happly]

/-- The hunks read from a printed patch are those between the texts, and the markers in it follow
    their lines: those that lack their end, and those that a bare carriage return ends. -/
theorem exists_hunks_cut (old new : Bytes) {name : Bytes} (hname : lf ∉ name) :
    ∃ hs, Patch.readAfter Patch.labelLines (unified old new name) = some hs ∧
      applyHunks hs (Lines.split old) = some (Lines.split new) ∧
      (∀ h ∈ hs, h ∈ changes old new) ∧
      ((Patch.cut (unified old new name)).drop Patch.labelLines =
        hs.flatMap fun h => Patch.header h :: h.marks.flatMap Patch.parts) ∧
      (Patch.cut (unified old new name)).count Patch.marker =
        ((hs.flatMap Hunk.marks).countP fun m => Lines.lacksEnd (Patch.signed m).2) +
          (hs.flatMap Hunk.marks).countP fun m => Lines.endsInCr (Patch.signed m).2 := by
  rcases Patch.exists_hunks_of_unified old new hname with ⟨hs, hread, happly, -⟩
  have hhs : hs = if old = new then [] else changes old new := by
    rw [Patch.readAfter, Patch.readBody_cut_unified old new hname] at hread
    exact (Option.some_inj.1 hread).symm
  have hcount : ((hs.flatMap fun h => Patch.header h :: h.marks.flatMap Patch.parts).count
      Patch.marker) = _ :=
    (Patch.count_marker_hunks hs).trans (Patch.count_marker_flatMap_parts _)
  refine ⟨hs, hread, happly, ?_⟩
  rw [Patch.cut_unified old new hname]
  by_cases hsame : old = new
  · rw [if_pos hsame] at hhs ⊢
    rw [hhs] at hcount ⊢
    exact ⟨fun h hh => absurd hh List.not_mem_nil, rfl, hcount⟩
  · rw [if_neg hsame] at hhs ⊢
    rw [hhs] at hcount ⊢
    refine ⟨fun h hh => hh, rfl, ?_⟩
    rw [List.count_append, Patch.count_marker_labelParts, hcount, Nat.zero_add]

/-- The lines that the marker follows in the patch of a formatted document. They are the last
    lines of the document and of its formatted form, where these have no line feed at the end,
    and the lines that a bare carriage return ends. Of the first kind there are two at the most,
    and none if the document ends in a line feed. Where every carriage return stands before a
    line feed there are none of the second kind, and whoever cuts files at line feeds can apply
    the patch. -/
theorem markers_of_retab (source : Bytes) {name : Bytes} (hname : lf ∉ name) :
    let patch := unified source (retab source) name
    ∃ hs, Patch.readAfter Patch.labelLines patch = some hs ∧
      ((Patch.cut patch).drop Patch.labelLines =
        hs.flatMap fun h => Patch.header h :: h.marks.flatMap Patch.parts) ∧
      (∀ h ∈ hs, ∀ front m back, h.marks = front ++ m :: back →
        (Patch.marker ∈ Patch.parts m ↔ ClosesTexts source (retab source) h front m ∨
          Lines.endsInCr (Patch.signed m).2 = true)) ∧
      let markers := (Patch.cut patch).count Patch.marker
      let returns := (hs.flatMap Hunk.marks).countP fun m => Lines.endsInCr (Patch.signed m).2
      returns ≤ markers ∧ markers ≤ returns + 2 ∧
        (Lines.endsInLf source = true → markers = returns) ∧
        (ReturnsPaired source → returns = 0 ∧
          applyHunks hs (Patch.cut source) = some (Patch.cut (retab source))) := by
  intro patch
  rcases exists_hunks_cut source (retab source) hname with
    ⟨hs, hread, happly, hmem, hcut, hcount⟩
  change (Patch.cut patch).count Patch.marker = _ at hcount
  have hlacks := countP_lacksEnd_le happly
  refine ⟨hs, hread, hcut, ?_, ?_, ?_, ?_, countP_endsInCr_eq_zero happly⟩
  · intro h hh front m back hmarks
    exact marker_mem_parts_iff_closesTexts (hmem h hh) hmarks
  · omega
  · split at hlacks <;> split at hlacks <;> omega
  · intro hlf
    rw [if_pos hlf, if_pos (endsInLf_retab hlf)] at hlacks
    omega

/-- A last line without an end, and a line before it that ends in a pair. -/
theorem markers_of_retab_paired :
    let source := ofAscii "  a\r\nb"
    lf ∉ ofAscii "x.conf" ∧ ReturnsPaired source ∧
      ∃ hs, Patch.readAfter Patch.labelLines (unified source (retab source) (ofAscii "x.conf")) =
          some hs ∧
        (Patch.cut (unified source (retab source) (ofAscii "x.conf"))).count Patch.marker ≤ 2 ∧
        applyHunks hs (Patch.cut source) = some (Patch.cut (retab source)) := by
  intro source
  have hname : lf ∉ ofAscii "x.conf" := by decide
  have hpaired : ReturnsPaired source := by decide
  rcases markers_of_retab source hname with ⟨hs, hread, -, -, -, hmarkers, -, hreturns⟩
  rcases hreturns hpaired with ⟨hzero, happly⟩
  refine ⟨hname, hpaired, hs, hread, ?_, happly⟩
  rw [hzero] at hmarkers
  exact hmarkers

/-- The document ends in a line feed, and still there are two markers in its patch. Each follows
    a line that has another behind it, and the patch can not be applied to what lies between
    line feeds. -/
theorem exists_marked_return :
    let source := ofAscii "  a\rb\n"
    let patch := unified source (retab source) (ofAscii "x.conf")
    Lines.endsInLf source = true ∧ (Patch.cut patch).count Patch.marker = 2 ∧
      ((Patch.readAfter Patch.labelLines patch).bind fun hs =>
        applyHunks hs (Patch.cut source)) = none := by
  decide +kernel

end Diff

end ConfIndent
