import ConfIndent.Diff.Hunk

/-!
# Applying Hunks

What hunks are for. Whoever holds the old text and the hunks gets the new text
from them, and whoever holds the new text gets the old one back, although the
lines between the hunks are left out.

`applyFrom` is the reader's side. It knows the text and the hunks and nothing of
the script they were cut from. It walks along the text with two counters, the
lines of the old text and of the new that lie behind it, and it refuses a hunk
that does not start where both counters say, or whose old lines are not the next
lines of the text. So that it succeeds says as much about the positions of the
hunks as about their lines.

Reading a hunk backwards swaps its sides, `Hunk.flip`. A text and a script enter
only through the two sides of the script, so each step is proved once and holds
in both directions.

## Main definitions

* `applyFrom`: Replaces the old lines of hunks by their new lines.
* `applyHunks`: The same from the beginning of a text.
* `Hunk.flip`: A hunk read backwards.
* `Leads`: Hunks lead from one side of a script to the other and back.

## Theorems

* `unsections_sections`: A script is made up of its sections.
* `applyFrom_cons`: What one hunk does to a text.
* `leads_following`: What follows a change leads on to the end of the script.
* `leads_hunks`: The hunks of a script lead from its old side to its new.
-/

namespace ConfIndent.Diff

variable {α : Type}

/-- A mark read backwards. -/
def Mark.flip : Mark α → Mark α
  | .kept l => .kept l
  | .removed l => .added l
  | .added l => .removed l

/-- A hunk read backwards. -/
def Hunk.flip (h : Hunk α) : Hunk α :=
  ⟨h.newStart, h.oldStart, h.marks.map Mark.flip⟩

/-- Replaces the old lines of each hunk by its new lines, where `i` lines of the
    old text and `j` of the new lie before the text given. Refuses a hunk that
    does not start where it says, or whose old lines do not stand there. -/
def applyFrom [DecidableEq α] : Nat → Nat → List (Hunk α) → List α → Option (List α)
  | _, _, [], text => some text
  | i, j, h :: hs, text =>
    let gap := h.oldStart - i
    if h.oldStart = i + gap ∧ h.newStart = j + gap ∧ gap ≤ text.length ∧
        (text.drop gap).take h.oldSize = oldSide h.marks then
      (applyFrom (h.oldStart + h.oldSize) (h.newStart + h.newSize) hs
        (text.drop (gap + h.oldSize))).map fun rest =>
          text.take gap ++ newSide h.marks ++ rest
    else none

/-- Replaces the old lines of hunks by their new lines. -/
def applyHunks [DecidableEq α] (hs : List (Hunk α)) (text : List α) : Option (List α) :=
  applyFrom 0 0 hs text

@[simp] theorem oldSide_map_flip (marks : List (Mark α)) :
    oldSide (marks.map Mark.flip) = newSide marks := by
  rw [oldSide, newSide, List.filterMap_map]
  congr 1
  funext m
  cases m <;> rfl

@[simp] theorem newSide_map_flip (marks : List (Mark α)) :
    newSide (marks.map Mark.flip) = oldSide marks := by
  rw [oldSide, newSide, List.filterMap_map]
  congr 1
  funext m
  cases m <;> rfl

/-- The script that sections and the lines kept after them make up. -/
def unsections (ss : List (Section α)) (tail : List α) : List (Mark α) :=
  ss.flatMap (fun s => s.kept.map .kept ++ s.changes) ++ tail.map .kept

theorem unsections_nil (tail : List α) : unsections [] tail = tail.map .kept := rfl

theorem unsections_cons (s : Section α) (ss : List (Section α)) (tail : List α) :
    unsections (s :: ss) tail = s.kept.map .kept ++ (s.changes ++ unsections ss tail) := by
  simp only [unsections, List.flatMap_cons, List.append_assoc]

theorem unsections_consMark (m : Mark α) (ss : List (Section α)) (tail : List α) :
    unsections (consMark m (ss, tail)).1 (consMark m (ss, tail)).2 = m :: unsections ss tail := by
  rcases ss with _ | ⟨⟨kept, changes⟩, ss⟩
  · cases m <;> rfl
  · cases m with
    | kept l => rfl
    -- A change joins the section behind it only if no line is kept in between.
    | removed l => cases kept <;> rfl
    | added l => cases kept <;> rfl

/-- A script is made up of its sections. -/
theorem unsections_sections (marks : List (Mark α)) :
    unsections (sections marks).1 (sections marks).2 = marks := by
  induction marks with
  | nil => rfl
  | cons m marks ih =>
    rw [sections, List.foldr_cons, ← sections, unsections_consMark, ih]

variable [DecidableEq α]

/-- A hunk that stands behind `gap` puts its new lines in the place of its old
    ones and leaves the rest to the hunks after it. -/
theorem applyFrom_cons {i j : Nat} {h : Hunk α} (hs : List (Hunk α)) {gap : List α}
    (hold : h.oldStart = i + gap.length) (hnew : h.newStart = j + gap.length) (text : List α) :
    applyFrom i j (h :: hs) (gap ++ (oldSide h.marks ++ text)) =
      (applyFrom (h.oldStart + h.oldSize) (h.newStart + h.newSize) hs text).map fun rest =>
        gap ++ (newSide h.marks ++ rest) := by
  have hgap : h.oldStart - i = gap.length := by omega
  have hdrop : (gap ++ (oldSide h.marks ++ text)).drop (gap.length + h.oldSize) = text := by
    rw [← List.drop_drop, List.drop_left, Hunk.oldSize, List.drop_left]
  rw [applyFrom, hgap, if_pos, hdrop]
  · simp only [List.take_left, List.append_assoc]
  · refine ⟨hold, hnew, ?_, ?_⟩
    · rw [List.length_append]
      exact Nat.le_add_right _ _
    · rw [List.drop_left, Hunk.oldSize, List.take_left]

/-- The hunks show parts of the marks only, and lead from their old side to their
    new side and back. `i` and `j` are the lines before the marks in either
    text. -/
structure Leads (i j : Nat) (hs : List (Hunk α)) (marks : List (Mark α)) : Prop where
  forth : applyFrom i j hs (oldSide marks) = some (newSide marks)
  back : applyFrom j i (hs.map Hunk.flip) (newSide marks) = some (oldSide marks)
  shown : ∀ h ∈ hs, h.marks <:+: marks

theorem leads_nil (i j : Nat) (kept : List α) : Leads i j [] (kept.map .kept) where
  forth := by rw [applyFrom, oldSide_map_kept, newSide_map_kept]
  back := by rw [List.map_nil, applyFrom, oldSide_map_kept, newSide_map_kept]
  shown := by
    intro h hh
    exact absurd hh List.not_mem_nil

theorem leads_cons {i j : Nat} {h : Hunk α} {hs : List (Hunk α)} {gap : List α}
    {marks : List (Mark α)} (hold : h.oldStart = i + gap.length)
    (hnew : h.newStart = j + gap.length)
    (hrest : Leads (h.oldStart + h.oldSize) (h.newStart + h.newSize) hs marks) :
    Leads i j (h :: hs) (gap.map .kept ++ (h.marks ++ marks)) where
  forth := by
    simp only [oldSide_append, newSide_append, oldSide_map_kept, newSide_map_kept]
    rw [applyFrom_cons hs hold hnew, hrest.forth, Option.map_some]
  back := by
    -- A flipped hunk is a hunk like any other, with the sides in each other's place.
    have hflip := applyFrom_cons (h := h.flip) (hs.map Hunk.flip) hnew hold (newSide marks)
    simp only [Hunk.oldSize, Hunk.newSize, Hunk.flip, oldSide_map_flip, newSide_map_flip] at hflip
    simp only [oldSide_append, newSide_append, oldSide_map_kept, newSide_map_kept, List.map_cons]
    rw [Hunk.flip, hflip, ← Hunk.oldSize, ← Hunk.newSize, hrest.back, Option.map_some]
  shown := by
    intro k hk
    rcases List.mem_cons.1 hk with rfl | hk
    · exact ⟨gap.map .kept, marks, List.append_assoc _ _ _⟩
    · rcases hrest.shown k hk with ⟨before, after, hmarks⟩
      refine ⟨gap.map .kept ++ (h.marks ++ before), after, ?_⟩
      simp only [← hmarks, List.append_assoc]

/-- A change opens a hunk. Of the lines kept before it the first `skipped` are
    left out. `after` is what the hunk goes on with and the hunks behind it,
    which lead through `rest`. -/
theorem leads_opening {i j skipped : Nat} {kept : List α} {changes rest : List (Mark α)}
    {after : List (Mark α) × List (Hunk α)} (hskipped : skipped ≤ kept.length)
    (hrest : Leads (i + kept.length + (oldSide changes).length + (oldSide after.1).length)
      (j + kept.length + (newSide changes).length + (newSide after.1).length) after.2 rest) :
    Leads i j
      (⟨i + skipped, j + skipped, (kept.drop skipped).map .kept ++ changes ++ after.1⟩ :: after.2)
      (kept.map .kept ++ (changes ++ (after.1 ++ rest))) := by
  have hmarks : kept.map Mark.kept ++ (changes ++ (after.1 ++ rest)) =
      (kept.take skipped).map .kept ++
        ((kept.drop skipped).map .kept ++ changes ++ after.1 ++ rest) := by
    rw [List.append_assoc, List.append_assoc, ← List.append_assoc (List.map _ (kept.take skipped)),
      ← List.map_append, List.take_append_drop]
  have hlen : (kept.take skipped).length = skipped := List.length_take_of_le hskipped
  have hkept : kept.length = skipped + (kept.drop skipped).length := by
    rw [List.length_drop]
    omega
  rw [hmarks]
  refine leads_cons (by rw [hlen]) (by rw [hlen]) ?_
  rw [hkept] at hrest
  simp only [Hunk.oldSize, Hunk.newSize, oldSide_append, newSide_append, oldSide_map_kept,
    newSide_map_kept, List.length_append]
  simpa only [Nat.add_assoc] using hrest

/-- What follows a change that ends after `i` lines of the old text and `j` of
    the new: the hunk that shows the change runs on for a while, and the hunks
    after it lead on from there to the end of the script. -/
theorem leads_following (i j : Nat) (ss : List (Section α)) (tail : List α) :
    ∃ rest, unsections ss tail = (following i j ss tail).1 ++ rest ∧
      Leads (i + (oldSide (following i j ss tail).1).length)
        (j + (newSide (following i j ss tail).1).length) (following i j ss tail).2 rest := by
  induction ss generalizing i j with
  | nil =>
    refine ⟨(tail.drop contextLines).map .kept, ?_, leads_nil _ _ _⟩
    rw [unsections_nil, following, ← List.map_append, List.take_append_drop]
  | cons s ss ih =>
    rcases ih (i + s.kept.length + (oldSide s.changes).length)
      (j + s.kept.length + (newSide s.changes).length) with ⟨rest, hrest, hleads⟩
    rw [unsections_cons, hrest, following]
    generalize following _ _ ss tail = after at hleads ⊢
    split
    · -- The lines kept are few, so the hunk goes on through them and the next change.
      refine ⟨rest, by simp only [List.append_assoc], ?_⟩
      simp only [oldSide_append, newSide_append, oldSide_map_kept, newSide_map_kept,
        List.length_append]
      simpa only [Nat.add_assoc] using hleads
    · -- The hunk ends, some lines are left out, and the next change opens another.
      rename_i hmany
      have hskip : contextLines + (s.kept.length - contextLines - contextLines) =
          s.kept.length - contextLines := by
        omega
      have hlen : contextLines + (s.kept.drop contextLines).length = s.kept.length := by
        rw [List.length_drop]
        omega
      have htake : (s.kept.take contextLines).length = contextLines :=
        List.length_take_of_le (by omega)
      have hle : s.kept.length - contextLines - contextLines ≤
          (s.kept.drop contextLines).length := by
        omega
      rw [← hlen, ← Nat.add_assoc i, ← Nat.add_assoc j] at hleads
      have hopen := leads_opening hle hleads
      rw [List.drop_drop, Nat.add_assoc i, Nat.add_assoc j, hskip] at hopen
      refine ⟨_, ?_, by simpa only [oldSide_map_kept, newSide_map_kept, htake] using hopen⟩
      rw [← List.append_assoc ((s.kept.take contextLines).map _), ← List.map_append,
        List.take_append_drop]

/-- The hunks of a script lead from its old side to its new side and back. -/
theorem leads_hunks (marks : List (Mark α)) : Leads 0 0 (hunks marks) marks := by
  have hmarks := unsections_sections marks
  rw [hunks]
  rcases hsections : sections marks with ⟨_ | ⟨s, ss⟩, tail⟩
  · rw [hsections] at hmarks
    rw [← hmarks]
    exact leads_nil 0 0 tail
  · rw [hsections] at hmarks
    rcases leads_following (s.kept.length + (oldSide s.changes).length)
      (s.kept.length + (newSide s.changes).length) ss tail with ⟨rest, hrest, hleads⟩
    rw [unsections_cons, hrest] at hmarks
    generalize hafter : following _ _ ss tail = after at hmarks hleads
    rw [← Nat.zero_add s.kept.length] at hleads
    have hopen := leads_opening (Nat.sub_le s.kept.length contextLines) hleads
    rw [hmarks] at hopen
    simpa only [Nat.zero_add, hafter] using hopen

/-- Applying the hunks of a comparison to the old text gives the new one. -/
theorem applyHunks_script (old new : List α) :
    applyHunks (hunks (script old new)) old = some new := by
  simpa only [applyHunks, oldSide_script, newSide_script] using (leads_hunks (script old new)).forth

/-- Applying the hunks of a comparison backwards to the new text gives the old
    one. -/
theorem applyHunks_flip_script (old new : List α) :
    applyHunks ((hunks (script old new)).map Hunk.flip) new = some old := by
  simpa only [applyHunks, oldSide_script, newSide_script] using (leads_hunks (script old new)).back

end ConfIndent.Diff
