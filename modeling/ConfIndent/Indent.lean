import ConfIndent.Bytes

/-!
# Leading Indentation

The one rule of the formatter. A document opens with a run of blank bytes:
spaces, tabs, line feeds and carriage returns. The part of that run up to its
last line feed is kept as it is. The part after it, the margin, stands before
the first line of code and is replaced by tabs: as many as the margin holds, or
a single one if it holds spaces and no tab.

A carriage return is blank but ends no line here, so a margin may hold some;
they are dropped with the spaces.

The document is cut into an `Opening` first and everything else is read off the
three parts, so the two offsets, the tab count and the formatted document can
not disagree about where the margin is.

## Main definitions

* `isBlank`: The four blank bytes.
* `Opening`: A document cut into blank lines, margin and the rest.
* `Opening.ofDocument`: The cut.
* `retab`: The formatted document.

## Theorems

* `Opening.text_ofDocument`: The three parts make up the document.
* `Opening.lf_not_mem_margin`: No line ends inside the margin.
* `retab_eq`: The formatted document, part by part.
-/

namespace ConfIndent

open Bytes

/-- The codes of the blank bytes: space, tab, line feed and carriage return.
    Any other integer, also one that is no byte, is not blank. -/
def isBlankCode (n : Int) : Bool :=
  n == 32 || n == 9 || n == 10 || n == 13

/-- Blank bytes may stand before the first line of code. -/
def isBlank (b : UInt8) : Bool :=
  isBlankCode b.toNat

/-- A document cut at the end of its leading blank lines and at its first byte
    that is not blank. -/
structure Opening where
  /-- Blank bytes up to the last line feed before any code. -/
  blankLines : Bytes
  /-- Blank bytes on the line of the first code. -/
  margin : Bytes
  /-- The first byte that is not blank and all that follows it. -/
  rest : Bytes
  deriving DecidableEq, Repr

namespace Opening

/-- The part of a text after its last line feed. -/
def afterLastLine (run : Bytes) : Bytes :=
  (run.reverse.takeWhile (· != lf)).reverse

/-- The part of a text up to and including its last line feed. -/
def throughLastLine (run : Bytes) : Bytes :=
  (run.reverse.dropWhile (· != lf)).reverse

/-- Cuts a document. -/
def ofDocument (source : Bytes) : Opening where
  blankLines := throughLastLine (source.takeWhile isBlank)
  margin := afterLastLine (source.takeWhile isBlank)
  rest := source.dropWhile isBlank

/-- The parts put together again. -/
def text (o : Opening) : Bytes :=
  o.blankLines ++ o.margin ++ o.rest

/-- The offset at which the line of the first code starts. -/
def lineStart (o : Opening) : Nat :=
  o.blankLines.length

/-- The offset of the first byte that is not blank, or the length of the
    document if there is none. -/
def scanEnd (o : Opening) : Nat :=
  o.blankLines.length + o.margin.length

/-- The number of tabs the margin is worth: those it holds, or one if it holds
    only spaces. -/
def tabs (o : Opening) : Nat :=
  if o.margin.count tab = 0 then
    if space ∈ o.margin then 1 else 0
  else
    o.margin.count tab

/-- The document with its margin replaced by tabs. -/
def retab (o : Opening) : Bytes :=
  o.blankLines ++ List.replicate o.tabs tab ++ o.rest

theorem throughLastLine_append_afterLastLine (run : Bytes) :
    throughLastLine run ++ afterLastLine run = run := by
  rw [throughLastLine, afterLastLine, ← List.reverse_append, List.takeWhile_append_dropWhile,
    List.reverse_reverse]

/-- The cut loses nothing. -/
@[simp] theorem text_ofDocument (source : Bytes) : (ofDocument source).text = source := by
  rw [text, ofDocument, throughLastLine_append_afterLastLine, List.takeWhile_append_dropWhile]

theorem lf_not_mem_afterLastLine (run : Bytes) : lf ∉ afterLastLine run := by
  intro h
  rw [afterLastLine, List.mem_reverse] at h
  have hne := @List.all_takeWhile _ (fun b => b != lf) run.reverse
  rw [List.all_eq_true] at hne
  simpa only [bne_self_eq_false, Bool.false_eq_true] using hne lf h

/-- The margin lies on one line. -/
theorem lf_not_mem_margin (source : Bytes) : lf ∉ (ofDocument source).margin :=
  lf_not_mem_afterLastLine _

end Opening

/-- The formatted document. -/
def retab (source : Bytes) : Bytes :=
  (Opening.ofDocument source).retab

/-- The formatted document differs from the source in its margin only. -/
theorem retab_eq (source : Bytes) :
    retab source = (Opening.ofDocument source).blankLines ++
      List.replicate (Opening.ofDocument source).tabs tab ++ source.dropWhile isBlank :=
  rfl

end ConfIndent
