import ConfIndent.Proofs.Diff.Reading

/-!
# The Shape of a Patch

What a reader finds in every patch, whatever the texts and whichever blocks were taken. A
hunk holds a change, and it holds no more kept lines than it takes to show where the change
stands: a few in front of the first change, a few behind the last, and between two changes
no more than the context of both. Hunks stand apart. Between two of them some lines are left
out, as many of the old text as of the new, and all lines left out are the same in both.

Context and positions come from the cutting of the script into sections, and each is proved
along the recursion that goes through the sections. `Continues` says what the part of a hunk
behind a change is like, whether or not another change follows in it. That the lines left out
are the same is a fact about the hunks alone: a text they can be applied to keeps the lines
that they do not cover.

## Main definitions

* `KeepsAtMost`: A bound on the lines kept in a row.
* `Hunk.Framed`: A change shown with its context.
* `Hunk.Apart`: Two hunks with lines left out between them.
* `outside`: The lines of a text that no range covers.
* `Patch.linesBehind`: The number of lines of a hunk behind some signs.

## Theorems

* `framed_hunks`: Hunks hold changes with their context.
* `separate_hunks`: Hunks stand apart.
* `outside_of_applyFrom`: The lines that hunks do not cover are kept.
* `hunks_of_unified`: The shape of the patch of two texts.
-/

namespace ConfIndent.Diff

section Context

variable {α : Type}

/-- A run without some element stands before or behind it. -/
theorem infix_append_cons {run front back : List α} {x : α} (h : run <:+: front ++ x :: back)
    (hx : x ∉ run) : run <:+: front ∨ run <:+: back := by
  rcases h with ⟨before, after, h⟩
  rcases List.append_eq_append_iff.1 h with ⟨more, hfront, -⟩ | ⟨more, hbefore, hafter⟩
  · exact .inl ⟨before, more, hfront.symm⟩
  rcases more with _ | ⟨y, more⟩
  · exact .inl ⟨before, [], by rw [hbefore, List.append_nil, List.append_nil]⟩
  rw [List.cons_append, List.cons_eq_cons] at hafter
  rw [← hafter.1] at hbefore
  rcases List.append_eq_append_iff.1 hbefore with ⟨rest, -, hrun⟩ | ⟨rest, -, hrun⟩
  · rw [hrun] at hx
    exact absurd (List.mem_append_right _ List.mem_cons_self) hx
  rcases rest with _ | ⟨z, rest⟩
  · rw [List.nil_append] at hrun
    rw [← hrun] at hx
    exact absurd List.mem_cons_self hx
  · rw [List.cons_append, List.cons_eq_cons] at hrun
    exact .inr ⟨rest, after, by rw [hafter.2, hrun.2]⟩

/-- What fails stops the search, whatever follows it. -/
theorem takeWhile_append_cons {p : α → Bool} {front : List α} {x : α} (hx : p x = false)
    (back : List α) : (front ++ x :: back).takeWhile p = front.takeWhile p := by
  have hstop : (x :: back).takeWhile p = [] :=
    List.takeWhile_cons_of_neg (by rw [hx]; exact Bool.false_ne_true)
  rw [List.takeWhile_append, hstop, List.append_nil]
  split
  · rename_i hlength
    exact ((List.takeWhile_prefix p).eq_of_length hlength).symm
  · rfl

/-- No more than some number of lines in a row are kept. -/
def KeepsAtMost (n : Nat) (marks : List (Mark α)) : Prop :=
  ∀ run, run <:+: marks → (∀ m ∈ run, m.isKept = true) → run.length ≤ n

theorem keepsAtMost_of_length {n : Nat} {marks : List (Mark α)} (h : marks.length ≤ n) :
    KeepsAtMost n marks :=
  fun _ hrun _ => Nat.le_trans hrun.length_le h

/-- A change ends the lines kept before it. -/
theorem KeepsAtMost.append_cons {n : Nat} {front back : List (Mark α)}
    (hfront : KeepsAtMost n front) {m : Mark α} (hm : m.isKept = false)
    (hback : KeepsAtMost n back) : KeepsAtMost n (front ++ m :: back) := by
  intro run hrun hkept
  have hmem : m ∉ run := by
    intro hmem
    rw [hkept m hmem] at hm
    exact absurd hm (by decide)
  rcases infix_append_cons hrun hmem with hrun | hrun
  · exact hfront run hrun hkept
  · exact hback run hrun hkept

/-- The marks are changes, and there is one. -/
def Changes (marks : List (Mark α)) : Prop :=
  marks ≠ [] ∧ ∀ m ∈ marks, m.isKept = false

/-- The part of a hunk behind a change: it ends with no more kept lines than the context, and
    holds no more in a row than the context of two changes. -/
structure Continues (marks : List (Mark α)) : Prop where
  closing : (marks.reverse.takeWhile Mark.isKept).length ≤ contextLines
  between : KeepsAtMost (2 * contextLines) marks

theorem continues_kept {lines : List α} (h : lines.length ≤ contextLines) :
    Continues (lines.map .kept) where
  closing := by
    have hle := (List.takeWhile_prefix (l := (lines.map Mark.kept).reverse) Mark.isKept).length_le
    rw [List.length_reverse, List.length_map] at hle
    exact Nat.le_trans hle h
  between := keepsAtMost_of_length (by rw [List.length_map]; omega)

/-- Behind its first change a part of a hunk goes on with the other changes next to it. -/
theorem Continues.append_changes {changes rest : List (Mark α)}
    (hchanges : ∀ m ∈ changes, m.isKept = false) (h : Continues rest) :
    Continues (changes ++ rest) := by
  induction changes with
  | nil => exact h
  | cons m changes ih =>
    have hm := hchanges m List.mem_cons_self
    have hrest := ih fun n hn => hchanges n (List.mem_cons_of_mem _ hn)
    refine ⟨?_, ?_⟩
    · rw [List.cons_append, List.reverse_cons, takeWhile_append_cons hm]
      exact hrest.closing
    · have hnil : KeepsAtMost (2 * contextLines) ([] : List (Mark α)) :=
        keepsAtMost_of_length (Nat.zero_le _)
      exact hnil.append_cons hm hrest.between

/-- Kept lines in front of a change leave the end of the part as it is. -/
theorem Continues.append {lines : List α} (hlines : lines.length ≤ 2 * contextLines)
    {changes rest : List (Mark α)} (hchanges : Changes changes) (h : Continues rest) :
    Continues (lines.map .kept ++ changes ++ rest) := by
  rcases List.exists_cons_of_ne_nil hchanges.1 with ⟨m, changes, rfl⟩
  have hm := hchanges.2 m List.mem_cons_self
  have hrest := h.append_changes fun n hn => hchanges.2 n (List.mem_cons_of_mem _ hn)
  rw [List.append_assoc, List.cons_append]
  refine ⟨?_, ?_⟩
  · rw [List.reverse_append, List.reverse_cons, List.append_assoc, List.singleton_append,
      takeWhile_append_cons hm]
    exact hrest.closing
  · have hkept : KeepsAtMost (2 * contextLines) (lines.map Mark.kept) :=
      keepsAtMost_of_length (by rw [List.length_map]; exact hlines)
    exact hkept.append_cons hm hrest.between

/-- The hunk holds a change, opens and closes with no more kept lines than the context, and
    keeps no more lines in a row than the context of two changes. -/
structure Hunk.Framed (h : Hunk α) : Prop where
  changed : ∃ m ∈ h.marks, m.isKept = false
  opening : (h.marks.takeWhile Mark.isKept).length ≤ contextLines
  closing : (h.marks.reverse.takeWhile Mark.isKept).length ≤ contextLines
  between : KeepsAtMost (2 * contextLines) h.marks

theorem framed_opening {i j : Nat} {lines : List α} (hlines : lines.length ≤ contextLines)
    {changes rest : List (Mark α)} (hchanges : Changes changes) (h : Continues rest) :
    (⟨i, j, lines.map .kept ++ changes ++ rest⟩ : Hunk α).Framed := by
  have hmarks : Continues (lines.map .kept ++ changes ++ rest) := h.append (by omega) hchanges
  rcases List.exists_cons_of_ne_nil hchanges.1 with ⟨m, changes, rfl⟩
  have hm := hchanges.2 m List.mem_cons_self
  refine ⟨⟨m, ?_, hm⟩, ?_, hmarks.closing, hmarks.between⟩
  · exact List.mem_append_left _ (List.mem_append_right _ List.mem_cons_self)
  · simp only
    rw [List.append_assoc, List.cons_append, takeWhile_append_cons hm]
    have hle := (List.takeWhile_prefix (l := lines.map Mark.kept) Mark.isKept).length_le
    rw [List.length_map] at hle
    exact Nat.le_trans hle hlines

theorem changes_consMark {m : Mark α} {ss : List (Section α)} {tail : List α}
    (hss : ∀ s ∈ ss, Changes s.changes) :
    ∀ s ∈ (consMark m (ss, tail)).1, Changes s.changes := by
  have hone : ∀ {m : Mark α}, m.isKept = false → Changes [m] := fun hm =>
    ⟨List.cons_ne_nil _ _, fun n hn => by rw [List.mem_singleton.1 hn, hm]⟩
  rcases ss with _ | ⟨⟨kept, changes⟩, ss⟩
  · cases m with
    | kept l => exact hss
    | removed l => exact List.forall_mem_cons.2 ⟨hone rfl, hss⟩
    | added l => exact List.forall_mem_cons.2 ⟨hone rfl, hss⟩
  · have hhead : Changes changes := hss _ List.mem_cons_self
    have hmore : ∀ {m : Mark α}, m.isKept = false → Changes (m :: changes) := fun hm =>
      ⟨List.cons_ne_nil _ _, List.forall_mem_cons.2 ⟨hm, hhead.2⟩⟩
    have htail := (List.forall_mem_cons.1 hss).2
    cases m with
    | kept l => exact List.forall_mem_cons.2 ⟨hhead, htail⟩
    -- A change joins the section behind it, or is a section of its own.
    | removed l =>
      cases kept with
      | nil => exact List.forall_mem_cons.2 ⟨hmore rfl, htail⟩
      | cons x kept => exact List.forall_mem_cons.2 ⟨hone rfl, hss⟩
    | added l =>
      cases kept with
      | nil => exact List.forall_mem_cons.2 ⟨hmore rfl, htail⟩
      | cons x kept => exact List.forall_mem_cons.2 ⟨hone rfl, hss⟩

/-- Every section holds a change. -/
theorem changes_sections (marks : List (Mark α)) :
    ∀ s ∈ (sections marks).1, Changes s.changes := by
  induction marks with
  | nil => exact fun s hs => absurd hs List.not_mem_nil
  | cons m marks ih =>
    rw [sections, List.foldr_cons, ← sections]
    exact changes_consMark ih

/-- The hunks behind the first one are framed, and what is left to the first one goes on with it. -/
theorem framed_following (i j : Nat) {ss : List (Section α)} (tail : List α)
    (hss : ∀ s ∈ ss, Changes s.changes) :
    Continues (following i j ss tail).1 ∧ ∀ h ∈ (following i j ss tail).2, h.Framed := by
  induction ss generalizing i j with
  | nil => exact ⟨continues_kept (List.length_take_le _ _), fun h hh => absurd hh List.not_mem_nil⟩
  | cons s ss ih =>
    rw [List.forall_mem_cons] at hss
    have hafter := ih (i + s.kept.length + (oldSide s.changes).length)
      (j + s.kept.length + (newSide s.changes).length) hss.2
    rw [following]
    generalize following _ _ ss tail = after at hafter ⊢
    split
    · rename_i hfew
      exact ⟨hafter.1.append hfew hss.1, hafter.2⟩
    · refine ⟨continues_kept (List.length_take_le _ _), List.forall_mem_cons.2 ⟨?_, hafter.2⟩⟩
      exact framed_opening (by rw [List.length_drop]; omega) hss.1 hafter.1

/-- The hunks of a script hold changes, each with its context. -/
theorem framed_hunks (marks : List (Mark α)) : ∀ h ∈ hunks marks, h.Framed := by
  have hchanges := changes_sections marks
  rw [hunks]
  rcases hsections : sections marks with ⟨_ | ⟨s, ss⟩, tail⟩
  · exact fun h hh => absurd hh List.not_mem_nil
  · rw [hsections, List.forall_mem_cons] at hchanges
    have hafter := framed_following (s.kept.length + (oldSide s.changes).length)
      (s.kept.length + (newSide s.changes).length) tail hchanges.2
    refine List.forall_mem_cons.2 ⟨?_, hafter.2⟩
    exact framed_opening (by rw [List.length_drop]; omega) hchanges.1 hafter.1

end Context

section Position

variable {α : Type}

/-- Between the first hunk and the second some lines are left out, as many of the old text
    as of the new. -/
def Hunk.Apart (h k : Hunk α) : Prop :=
  ∃ gap, 0 < gap ∧ k.oldStart = h.oldStart + h.oldSize + gap ∧
    k.newStart = h.newStart + h.newSize + gap

/-- Hunks next to each other are apart. -/
def Separate (hs : List (Hunk α)) : Prop :=
  ∀ h k, [h, k] <:+: hs → h.Apart k

theorem separate_nil : Separate ([] : List (Hunk α)) :=
  fun _ _ hhk => absurd hhk.length_le (Nat.not_succ_le_zero _)

theorem separate_singleton (h : Hunk α) : Separate [h] := by
  intro k l hkl
  have hle := hkl.length_le
  simp only [List.length_cons, List.length_nil] at hle
  omega

theorem separate_cons {h k : Hunk α} {hs : List (Hunk α)} (hhk : h.Apart k)
    (hhs : Separate (k :: hs)) : Separate (h :: k :: hs) := by
  intro l m hlm
  rcases List.infix_cons_iff.1 hlm with hlm | hlm
  · rw [List.cons_prefix_cons, List.cons_prefix_cons] at hlm
    rw [hlm.1, hlm.2.1]
    exact hhk
  · exact hhs l m hlm

/-- The hunk that shows a change and the hunks behind it are apart, where the hunk ends with
    what follows the change in it. -/
theorem separate_following {i j : Nat} {ss : List (Section α)} {tail : List α} {h : Hunk α}
    (hold : h.oldStart + h.oldSize = i + (oldSide (following i j ss tail).1).length)
    (hnew : h.newStart + h.newSize = j + (newSide (following i j ss tail).1).length) :
    Separate (h :: (following i j ss tail).2) := by
  induction ss generalizing i j h with
  | nil => exact separate_singleton h
  | cons s ss ih =>
    rw [following] at hold hnew ⊢
    have hafter := @ih (i + s.kept.length + (oldSide s.changes).length)
      (j + s.kept.length + (newSide s.changes).length)
    generalize following _ _ ss tail = after at hafter hold hnew ⊢
    by_cases hfew : s.kept.length ≤ 2 * contextLines
    · rw [if_pos hfew] at hold hnew ⊢
      simp only [oldSide_append, newSide_append, oldSide_map_kept, newSide_map_kept,
        List.length_append] at hold hnew
      exact hafter (by omega) (by omega)
    · rw [if_neg hfew] at hold hnew ⊢
      simp only [oldSide_map_kept, newSide_map_kept, List.length_take] at hold hnew
      refine separate_cons ⟨s.kept.length - 2 * contextLines, ?_, ?_, ?_⟩ (hafter ?_ ?_)
      · omega
      · simp only
        omega
      · simp only
        omega
      · simp only [Hunk.oldSize, oldSide_append, oldSide_map_kept, List.length_append,
          List.length_drop]
        omega
      · simp only [Hunk.newSize, newSide_append, newSide_map_kept, List.length_append,
          List.length_drop]
        omega

/-- Some lines are left out between the hunks of a script. -/
theorem separate_hunks (marks : List (Mark α)) : Separate (hunks marks) := by
  rw [hunks]
  rcases sections marks with ⟨_ | ⟨s, ss⟩, tail⟩
  · exact separate_nil
  · refine separate_following ?_ ?_
    · simp only [Hunk.oldSize, oldSide_append, oldSide_map_kept, List.length_append,
        List.length_drop]
      omega
    · simp only [Hunk.newSize, newSide_append, newSide_map_kept, List.length_append,
        List.length_drop]
      omega

/-- The lines of the old text that a hunk covers. -/
def Hunk.oldRange (h : Hunk α) : Nat × Nat :=
  (h.oldStart, h.oldSize)

/-- The lines of the new text that a hunk covers. -/
def Hunk.newRange (h : Hunk α) : Nat × Nat :=
  (h.newStart, h.newSize)

/-- The range does not cover the line behind `i` lines. -/
def spares (i : Nat) (range : Nat × Nat) : Bool :=
  i < range.1 || range.1 + range.2 ≤ i

/-- The lines that no range covers, where `i` lines lie before the lines given. -/
def outside (i : Nat) (ranges : List (Nat × Nat)) (lines : List α) : List α :=
  ((lines.zipIdx i).filter fun l => ranges.all (spares l.2)).map Prod.fst

theorem outside_append (i : Nat) (ranges : List (Nat × Nat)) (front back : List α) :
    outside i ranges (front ++ back) =
      outside i ranges front ++ outside (i + front.length) ranges back := by
  rw [outside, List.zipIdx_append, List.filter_append, List.map_append, outside, outside]

/-- What ends before all ranges is outside of them. -/
theorem outside_eq_self {i : Nat} {ranges : List (Nat × Nat)} {lines : List α}
    (h : ∀ r ∈ ranges, i + lines.length ≤ r.1) : outside i ranges lines = lines := by
  rw [outside, List.filter_eq_self.2, List.zipIdx_map_fst]
  intro l hl
  have hlt := List.snd_lt_of_mem_zipIdx hl
  rw [List.all_eq_true]
  intro r hr
  have hle := h r hr
  rw [spares, Bool.or_eq_true, decide_eq_true_eq, decide_eq_true_eq]
  omega

/-- What lies within a range is not outside. -/
theorem outside_eq_nil {i : Nat} {r : Nat × Nat} {ranges : List (Nat × Nat)} {lines : List α}
    (hr : r ∈ ranges) (hstart : r.1 ≤ i) (hend : i + lines.length ≤ r.1 + r.2) :
    outside i ranges lines = [] := by
  rw [outside, List.filter_eq_nil_iff.2, List.map_nil]
  intro l hl hspares
  have hlt := List.snd_lt_of_mem_zipIdx hl
  have hle := List.le_snd_of_mem_zipIdx hl
  have hspares := List.all_eq_true.1 hspares r hr
  rw [spares, Bool.or_eq_true, decide_eq_true_eq, decide_eq_true_eq] at hspares
  omega

theorem outside_cons_of_le {i : Nat} {r : Nat × Nat} (h : r.1 + r.2 ≤ i)
    (ranges : List (Nat × Nat)) (lines : List α) :
    outside i (r :: ranges) lines = outside i ranges lines := by
  rw [outside, outside]
  congr 1
  refine List.filter_congr fun l hl => ?_
  have hle := List.le_snd_of_mem_zipIdx hl
  have hspares : spares l.2 r = true := by
    rw [spares, Bool.or_eq_true, decide_eq_true_eq, decide_eq_true_eq]
    omega
  rw [List.all_cons, hspares, Bool.true_and]

/-- The first range leaves the lines before it and those behind it. -/
theorem outside_cons {i : Nat} {r : Nat × Nat} {ranges : List (Nat × Nat)}
    {gap covered : List α} (hstart : r.1 = i + gap.length) (hsize : r.2 = covered.length)
    (hranges : ∀ k ∈ ranges, r.1 + r.2 ≤ k.1) (lines : List α) :
    outside i (r :: ranges) (gap ++ covered ++ lines) =
      gap ++ outside (r.1 + r.2) ranges lines := by
  have hgap : outside i (r :: ranges) gap = gap := by
    refine outside_eq_self (List.forall_mem_cons.2 ⟨by omega, fun k hk => ?_⟩)
    have hle := hranges k hk
    omega
  have hcovered : outside (i + gap.length) (r :: ranges) covered = [] :=
    outside_eq_nil List.mem_cons_self (by omega) (by omega)
  have hlength : i + (gap ++ covered).length = r.1 + r.2 := by
    rw [List.length_append]
    omega
  rw [outside_append, outside_append, hgap, hcovered, List.append_nil, hlength,
    outside_cons_of_le (Nat.le_refl _)]

variable [DecidableEq α]

/-- What hunks that can be applied do: the first puts its new lines in the place of its old
    ones behind some lines that stay. -/
theorem exists_of_applyFrom {i j : Nat} {h : Hunk α} {hs : List (Hunk α)} {old new : List α}
    (happly : applyFrom i j (h :: hs) old = some new) :
    ∃ gap text rest, old = gap ++ oldSide h.marks ++ text ∧ new = gap ++ newSide h.marks ++ rest ∧
      h.oldStart = i + gap.length ∧ h.newStart = j + gap.length ∧
      applyFrom (h.oldStart + h.oldSize) (h.newStart + h.newSize) hs text = some rest := by
  rw [applyFrom] at happly
  split at happly
  · rename_i hstands
    rcases Option.map_eq_some_iff.1 happly with ⟨rest, hrest, hnew⟩
    have hlength : (old.take (h.oldStart - i)).length = h.oldStart - i :=
      List.length_take_of_le hstands.2.2.1
    refine ⟨old.take (h.oldStart - i), _, rest, ?_, hnew.symm, ?_, ?_, hrest⟩
    · rw [← hstands.2.2.2, List.append_assoc, ← List.drop_drop, List.take_append_drop,
        List.take_append_drop]
    · rw [hlength]
      exact hstands.1
    · rw [hlength]
      exact hstands.2.1
  · exact absurd happly (by simp only [reduceCtorEq, not_false_eq_true])

/-- Hunks that apply from some line on start there or later. -/
theorem le_start_of_applyFrom {i j : Nat} {hs : List (Hunk α)} {old new : List α}
    (happly : applyFrom i j hs old = some new) :
    ∀ h ∈ hs, i ≤ h.oldStart ∧ j ≤ h.newStart := by
  induction hs generalizing i j old new with
  | nil => exact fun h hh => absurd hh List.not_mem_nil
  | cons h hs ih =>
    rcases exists_of_applyFrom happly with ⟨gap, text, rest, -, -, hold, hnew, hrest⟩
    refine List.forall_mem_cons.2 ⟨by omega, fun k hk => ?_⟩
    have hle := ih hrest k hk
    omega

/-- Where hunks lead from one text to another, the lines that they do not cover are the same
    in both. -/
theorem outside_of_applyFrom {i j : Nat} {hs : List (Hunk α)} {old new : List α}
    (happly : applyFrom i j hs old = some new) :
    outside i (hs.map Hunk.oldRange) old = outside j (hs.map Hunk.newRange) new := by
  induction hs generalizing i j old new with
  | nil =>
    rw [applyFrom, Option.some_inj] at happly
    rw [List.map_nil, List.map_nil, outside_eq_self (fun r hr => absurd hr List.not_mem_nil),
      outside_eq_self (fun r hr => absurd hr List.not_mem_nil), happly]
  | cons h hs ih =>
    rcases exists_of_applyFrom happly with ⟨gap, text, rest, rfl, rfl, hold, hnew, hrest⟩
    have hle := le_start_of_applyFrom hrest
    rw [List.map_cons, List.map_cons, outside_cons hold rfl, outside_cons hnew rfl]
    · exact congrArg (gap ++ ·) (ih hrest)
    · exact List.forall_mem_map.2 fun k hk => (hle k hk).2
    · exact List.forall_mem_map.2 fun k hk => (hle k hk).1

end Position

open Bytes

namespace Patch

/-- The number of lines of a hunk that are printed behind one of the signs. -/
def linesBehind (signs : List UInt8) (h : Hunk Bytes) : Nat :=
  h.marks.countP fun m => signs.contains (signed m).1

theorem oldSize_eq_linesBehind (h : Hunk Bytes) : h.oldSize = linesBehind (ofAscii " -") h := by
  have hsign : ∀ m : Mark Bytes, m.old?.isSome = (ofAscii " -").contains (signed m).1 := by
    intro m
    cases m <;> rfl
  simp only [Hunk.oldSize, oldSide, List.length_filterMap_eq_countP, hsign, linesBehind]

theorem newSize_eq_linesBehind (h : Hunk Bytes) : h.newSize = linesBehind (ofAscii " +") h := by
  have hsign : ∀ m : Mark Bytes, m.new?.isSome = (ofAscii " +").contains (signed m).1 := by
    intro m
    cases m <;> rfl
  simp only [Hunk.newSize, newSide, List.length_filterMap_eq_countP, hsign, linesBehind]

end Patch

/-- The patch of two texts is made up of hunks, which can be read in it. The header of each
    says where it stands, and as sizes the number of lines behind a space or a minus and behind
    a space or a plus. Every hunk shows a change with its context, some lines are left out
    between two hunks, and the lines left out are the same in both texts. -/
theorem hunks_of_unified {old new name : Bytes} (hne : old ≠ new) (hname : lf ∉ name) :
    ∃ hs, unified old new name = Patch.labels name ++ hs.flatMap Patch.hunk ∧
      Patch.readAfter Patch.labelLines (unified old new name) = some hs ∧ hs ≠ [] ∧
      (∀ h ∈ hs, h.Framed ∧ Patch.readHeader (Patch.header h) =
        some ((h.oldStart, Patch.linesBehind (ofAscii " -") h),
          (h.newStart, Patch.linesBehind (ofAscii " +") h))) ∧
      Separate hs ∧
      outside 0 (hs.map Hunk.oldRange) (Lines.split old) =
        outside 0 (hs.map Hunk.newRange) (Lines.split new) := by
  have happly := applyHunks_script (Lines.split old) (Lines.split new)
  rw [← changes] at happly
  refine ⟨changes old new, ?_, ?_, ?_, fun h hh => ⟨framed_hunks _ h hh, ?_⟩, separate_hunks _,
    outside_of_applyFrom happly⟩
  · rw [unified, if_neg hne]
  · rw [Patch.readAfter, Patch.readBody_cut_unified old new hname, if_neg hne]
  · -- Without a hunk the old text would be the new one.
    intro hnil
    rw [hnil, applyHunks, applyFrom, Option.some_inj] at happly
    exact hne (Lines.split_injective happly)
  · rw [Patch.readHeader_header, Patch.oldSize_eq_linesBehind, Patch.newSize_eq_linesBehind]

/-- Between the two changes seven lines are kept, one more than their context, so they are
    shown in a hunk each. -/
theorem hunks_of_unified_twoHunks :
    let old := ofAscii "a\n1\n2\n3\n4\n5\n6\n7\nb\n"
    let new := ofAscii "A\n1\n2\n3\n4\n5\n6\n7\nB"
    let name := ofAscii "x.conf"
    old ≠ new ∧ lf ∉ name ∧
      ∃ hs, unified old new name = Patch.labels name ++ hs.flatMap Patch.hunk ∧
        Patch.readAfter Patch.labelLines (unified old new name) = some hs ∧ hs ≠ [] ∧
        (∀ h ∈ hs, h.Framed ∧ Patch.readHeader (Patch.header h) =
          some ((h.oldStart, Patch.linesBehind (ofAscii " -") h),
            (h.newStart, Patch.linesBehind (ofAscii " +") h))) ∧
        Separate hs ∧
        outside 0 (hs.map Hunk.oldRange) (Lines.split old) =
          outside 0 (hs.map Hunk.newRange) (Lines.split new) :=
  ⟨by decide, by decide, hunks_of_unified (by decide) (by decide)⟩

end ConfIndent.Diff
