import ConfIndent.Diff.Script

/-!
# Hunks

Of a long text only the places that changed are shown, each with a few lines of
context. A hunk is such a place: some lines of a script together with the number
of lines that stand before them in either text.

The script is cut into sections first, each a run of kept lines followed by a
run of changes. A run of kept lines between two changes is shown in full if it is
no longer than the context of both; otherwise its first lines close one hunk, its
last lines open the next, and the lines between are left out. The kept lines
before the first change and after the last are cut to the context in the same
way.

Two changes are never neighbours in the list of sections without a kept line
between them, so a hunk never ends where the next begins.

## Main definitions

* `contextLines`: The number of kept lines shown around a change.
* `Section`: Kept lines and the changes that follow them.
* `sections`: A script cut into sections.
* `Hunk`: A part of a script and where it stands.
* `hunks`: The parts of a script that are shown.
-/

namespace ConfIndent.Diff

variable {α : Type}

/-- Kept lines shown before and after a change. -/
def contextLines : Nat := 3

/-- Kept lines and the changes that follow them. -/
structure Section (α : Type) where
  /-- The lines kept since the changes before. -/
  kept : List α
  /-- The changes up to the next line that is kept. -/
  changes : List (Mark α)

/-- Puts a mark before the sections of what follows it, where `tail` are the
    lines kept after the last change. -/
def consMark (m : Mark α) : List (Section α) × List α → List (Section α) × List α
  | ([], tail) =>
    match m with
    | .kept l => ([], l :: tail)
    | m => ([⟨[], [m]⟩], tail)
  | (s :: ss, tail) =>
    match m with
    | .kept l => (⟨l :: s.kept, s.changes⟩ :: ss, tail)
    | m =>
      match s.kept with
      | [] => (⟨[], m :: s.changes⟩ :: ss, tail)
      | _ :: _ => (⟨[], [m]⟩ :: s :: ss, tail)

/-- A script cut into sections and the lines kept after the last change. -/
def sections (marks : List (Mark α)) : List (Section α) × List α :=
  marks.foldr consMark ([], [])

/-- A part of a script and where it stands. -/
structure Hunk (α : Type) where
  /-- The number of lines before the hunk in the old text. -/
  oldStart : Nat
  /-- The number of lines before the hunk in the new text. -/
  newStart : Nat
  /-- The lines of the hunk. -/
  marks : List (Mark α)
  deriving DecidableEq, Repr

/-- The number of old lines in a hunk. -/
def Hunk.oldSize (h : Hunk α) : Nat :=
  (oldSide h.marks).length

/-- The number of new lines in a hunk. -/
def Hunk.newSize (h : Hunk α) : Nat :=
  (newSide h.marks).length

/-- What follows a change: the rest of its hunk, and the hunks after it. The
    change ends after `i` lines of the old text and `j` of the new. -/
def following (i j : Nat) : List (Section α) → List α → List (Mark α) × List (Hunk α)
  | [], tail => ((tail.take contextLines).map .kept, [])
  | s :: ss, tail =>
    let skipped := s.kept.length - contextLines
    let after := following (i + s.kept.length + (oldSide s.changes).length)
      (j + s.kept.length + (newSide s.changes).length) ss tail
    if s.kept.length ≤ 2 * contextLines then
      (s.kept.map .kept ++ s.changes ++ after.1, after.2)
    else
      ((s.kept.take contextLines).map .kept,
        ⟨i + skipped, j + skipped, (s.kept.drop skipped).map .kept ++ s.changes ++ after.1⟩ ::
          after.2)

/-- The parts of a script that are shown. -/
def hunks (marks : List (Mark α)) : List (Hunk α) :=
  match sections marks with
  | ([], _) => []
  | (s :: ss, tail) =>
    let skipped := s.kept.length - contextLines
    let after := following (s.kept.length + (oldSide s.changes).length)
      (s.kept.length + (newSide s.changes).length) ss tail
    ⟨skipped, skipped, (s.kept.drop skipped).map .kept ++ s.changes ++ after.1⟩ :: after.2

end ConfIndent.Diff
