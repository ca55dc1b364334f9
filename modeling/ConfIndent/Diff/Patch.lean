import ConfIndent.Lines
import ConfIndent.Diff.Hunk

/-!
# Patches

The printed form of a change. A patch names the old and the new text in two
label lines and then shows the hunks. A hunk opens with a header that says which
lines of either text it covers, and goes on with its lines, each behind a space,
a minus or a plus.

Lines keep the bytes that end them, so a patch shows a carriage return exactly
where the text has one. A line that does not end in a line feed would run into
the next one; a line feed and a marker are put behind it.

Ranges count lines from one. A range of a single line is written without its
size, and an empty range names the line before it, which may be line zero.

## Main definitions

* `Patch.range`: A range of lines as a header shows it.
* `Patch.header`: The header of a hunk.
* `Patch.line`: A line of a hunk.
* `unified`: The patch from one text to another.
-/

namespace ConfIndent.Diff

open Bytes

namespace Patch

/-- What stands behind a line that does not end in a line feed. -/
def unfinished : Bytes :=
  ofAscii "\n\\ No newline at end of file\n"

/-- A range of lines, given how many lines stand before it and how many it
    covers. -/
def range (start size : Nat) : Bytes :=
  match size with
  | 0 => ofNat start ++ ofAscii ",0"
  | 1 => ofNat (start + 1)
  | size => ofNat (start + 1) ++ ofAscii "," ++ ofNat size

/-- The header of a hunk. -/
def header (h : Hunk Bytes) : Bytes :=
  ofAscii "@@ -" ++ range h.oldStart h.oldSize ++ ofAscii " +" ++ range h.newStart h.newSize ++
    ofAscii " @@\n"

/-- The sign in front of a line and the line itself. -/
def signed : Mark Bytes → UInt8 × Bytes
  | .kept l => (32, l)
  | .removed l => (45, l)
  | .added l => (43, l)

/-- A line of a hunk. -/
def line (m : Mark Bytes) : Bytes :=
  (signed m).1 :: (signed m).2 ++ if Lines.endsInLf (signed m).2 then [] else unfinished

/-- A hunk with its header. -/
def hunk (h : Hunk Bytes) : Bytes :=
  header h ++ h.marks.flatMap line

/-- The two lines that name the texts compared. -/
def labels (name : Bytes) : Bytes :=
  ofAscii "--- a/" ++ name ++ [lf] ++ (ofAscii "+++ b/" ++ name ++ [lf])

end Patch

/-- The hunks that lead from one text to another. -/
def changes (old new : Bytes) : List (Hunk Bytes) :=
  hunks (script (Lines.split old) (Lines.split new))

/-- The patch from one text of a file to another. It is empty if nothing
    changed. -/
def unified (old new name : Bytes) : Bytes :=
  if old = new then [] else Patch.labels name ++ (changes old new).flatMap Patch.hunk

end ConfIndent.Diff
