import ConfIndent.Diff.Block

/-!
# Edit Scripts

A script tells line by line how one text becomes another: each line is kept,
removed or added. Comparing two texts gives a script by taking their longest
common block, keeping its lines, and comparing what stands before it and what
stands after it in the same way. Where no block is left, all old lines are
removed and then all new ones added.

A script carries both texts in it. `oldSide` reads off the lines that were there
and `newSide` the lines that are there now; that these are the two texts
compared is what makes a script a correct answer, whichever blocks were chosen.

## Main definitions

* `Mark`: What becomes of one line.
* `script`: How one text becomes another.
* `oldSide`, `newSide`: The texts a script leads from and to.

## Theorems

* `oldSide_script`: The script leads from the old text.
* `newSide_script`: The script leads to the new text.
-/

namespace ConfIndent.Diff

/-- What becomes of a line. -/
inductive Mark (α : Type) where
  /-- The line stands in both texts. -/
  | kept (line : α)
  /-- The line stands in the old text only. -/
  | removed (line : α)
  /-- The line stands in the new text only. -/
  | added (line : α)
  deriving DecidableEq, Repr

namespace Mark

variable {α : Type}

/-- The line as it stands in the old text, if it does. -/
def old? : Mark α → Option α
  | kept l => some l
  | removed l => some l
  | added _ => none

/-- The line as it stands in the new text, if it does. -/
def new? : Mark α → Option α
  | kept l => some l
  | removed _ => none
  | added l => some l

/-- The line is kept. -/
def isKept : Mark α → Bool
  | kept _ => true
  | _ => false

end Mark

section Sides

variable {α : Type}

/-- The text a script leads from. -/
def oldSide (marks : List (Mark α)) : List α :=
  marks.filterMap Mark.old?

/-- The text a script leads to. -/
def newSide (marks : List (Mark α)) : List α :=
  marks.filterMap Mark.new?

@[simp] theorem oldSide_append (s t : List (Mark α)) : oldSide (s ++ t) = oldSide s ++ oldSide t :=
  List.filterMap_append

@[simp] theorem newSide_append (s t : List (Mark α)) : newSide (s ++ t) = newSide s ++ newSide t :=
  List.filterMap_append

@[simp] theorem oldSide_map_kept (ls : List α) : oldSide (ls.map .kept) = ls := by
  simp only [oldSide, List.filterMap_map, Function.comp_def, Mark.old?, List.filterMap_some]

@[simp] theorem newSide_map_kept (ls : List α) : newSide (ls.map .kept) = ls := by
  simp only [newSide, List.filterMap_map, Function.comp_def, Mark.new?, List.filterMap_some]

@[simp] theorem oldSide_map_removed (ls : List α) : oldSide (ls.map .removed) = ls := by
  simp only [oldSide, List.filterMap_map, Function.comp_def, Mark.old?, List.filterMap_some]

@[simp] theorem newSide_map_removed (ls : List α) : newSide (ls.map .removed) = [] := by
  simp only [newSide, List.filterMap_eq_nil_iff, List.mem_map, forall_exists_index, and_imp,
    forall_apply_eq_imp_iff₂, Mark.new?, implies_true]

@[simp] theorem oldSide_map_added (ls : List α) : oldSide (ls.map .added) = [] := by
  simp only [oldSide, List.filterMap_eq_nil_iff, List.mem_map, forall_exists_index, and_imp,
    forall_apply_eq_imp_iff₂, Mark.old?, implies_true]

@[simp] theorem newSide_map_added (ls : List α) : newSide (ls.map .added) = ls := by
  simp only [newSide, List.filterMap_map, Function.comp_def, Mark.new?, List.filterMap_some]

end Sides

variable {α : Type} [DecidableEq α]

/-- How the old text becomes the new one, where popular lines start no block. -/
def scriptAvoiding (popular old new : List α) : List (Mark α) :=
  match _h : longestBlock popular old new with
  | ⟨_, _, 0⟩ => old.map .removed ++ new.map .added
  | ⟨i, j, k + 1⟩ =>
    scriptAvoiding popular (old.take i) (new.take j) ++
      (((old.drop i).take (k + 1)).map .kept ++
        scriptAvoiding popular (old.drop (i + (k + 1))) (new.drop (j + (k + 1))))
termination_by old.length
decreasing_by
  all_goals
    have := (longestBlock_aligns popular old new).oldStart_add_size_le
    rw [_h] at this
    simp only [List.length_take, List.length_drop] at this ⊢
    omega

/-- How the old text becomes the new one. -/
def script (old new : List α) : List (Mark α) :=
  scriptAvoiding (popularLines new) old new

theorem sides_scriptAvoiding (popular old new : List α) :
    oldSide (scriptAvoiding popular old new) = old ∧
      newSide (scriptAvoiding popular old new) = new := by
  fun_induction scriptAvoiding popular old new with
  | case1 old new h =>
    simp only [oldSide_append, oldSide_map_removed, oldSide_map_added, List.append_nil,
      newSide_append, newSide_map_removed, newSide_map_added, List.nil_append, and_self]
  | case2 old new i j k hb ih₁ ih₂ =>
    have ha := longestBlock_aligns popular old new
    rw [hb] at ha
    rcases ha with ⟨o, n, run, o', n', ho, hn, hi, hj, hk⟩
    simp only [Nat.succ_eq_add_one] at hi hj hk
    rw [oldSide_append, oldSide_append, newSide_append, newSide_append, oldSide_map_kept,
      newSide_map_kept, ih₁.1, ih₁.2, ih₂.1, ih₂.2, ← hk]
    -- The lines kept are taken from the old text and stand in the new one as well.
    have hrun : (old.drop i).take run.length = run := by
      rw [ho, List.append_assoc, ← hi, List.drop_left, List.take_left]
    rw [hrun]
    constructor
    · rw [ho, ← hi, ← List.length_append, List.drop_left, List.append_assoc, List.take_left]
    · rw [hn, ← hj, ← List.length_append, List.drop_left, List.append_assoc, List.take_left]

/-- A script leads from the old text. -/
@[simp] theorem oldSide_script (old new : List α) : oldSide (script old new) = old :=
  (sides_scriptAvoiding _ _ _).1

/-- A script leads to the new text. -/
@[simp] theorem newSide_script (old new : List α) : newSide (script old new) = new :=
  (sides_scriptAvoiding _ _ _).2

end ConfIndent.Diff
