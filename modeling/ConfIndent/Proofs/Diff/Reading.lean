import ConfIndent.Diff.Patch
import ConfIndent.Proofs.Bytes
import ConfIndent.Proofs.Diff.Apply

/-!
# Reading Patches

A patch is text, and whoever receives one has nothing else. Here is the reader
of that text: it cuts the patch at line feeds, drops the lines in front of the
first hunk, takes each header apart, and puts the bytes of a line together
again, without the line feed that only the marker behind it accounts for.

The reader is strict. A header whose sizes are not those of the lines below it
is refused, as is a line that opens with no sign, so that the header of a hunk
and the signs in front of its lines have to tell the same story.

Cutting at line feeds only, the reader does not see the lines of the texts
compared. It still gets them back, since a line holds a line feed at its end or
nowhere, and where it holds none the marker says so.

## Main definitions

* `Patch.cut`: The parts of a text between line feeds.
* `Patch.readHeader`: The two ranges of a header.
* `Patch.readBody`: The hunks in the lines of a patch.
* `Patch.readAfter`: The hunks of a patch behind some lines of another kind.
* `Patch.parts`: The parts of a printed line between line feeds.
* `Patch.apply`: The text that a patch makes of another.

## Theorems

* `Patch.readHeader_header`: A printed header is read back.
* `Patch.reads_hunks`: Printed hunks are read back.
* `unified_roundTrip`: A patch leads from the old text to the new and back.
-/

namespace ConfIndent

namespace Diff

open Bytes

namespace Patch

/-- The parts of a text between line feeds, each with the line feed that ends
    it. -/
def cut : Bytes → List Bytes
  | [] => []
  | b :: rest => if b = lf then [lf] :: cut rest else consFirst b (cut rest)

/-- The line that tells that the line before it is not ended by a line feed. -/
def marker : Bytes :=
  ofAscii "\\ No newline at end of file\n"

/-- The number of lines before a range and in it, where a range that holds a line
    is named by its first one. -/
def place (start size : Nat) : Option (Nat × Nat) :=
  if size = 0 then some (start, 0)
  else if start = 0 then none
  else some (start - 1, size)

/-- A range of lines. One without a size holds a single line. -/
def readRange (text : Bytes) : Option (Nat × Nat) :=
  match pieces 44 text with
  | [start] => (toNat? start).bind fun start => place start 1
  | [start, size] =>
    (toNat? start).bind fun start => (toNat? size).bind fun size => place start size
  | _ => none

/-- The two ranges of a header. -/
def readHeader (text : Bytes) : Option ((Nat × Nat) × (Nat × Nat)) :=
  match pieces space text with
  | [opening, 45 :: old, 43 :: new, closing] =>
    if opening = ofAscii "@@" ∧ closing = ofAscii "@@\n" then
      (readRange old).bind fun old => (readRange new).map fun new => (old, new)
    else none
  | _ => none

/-- A line behind its sign. -/
def readSigned : Bytes → Option (Mark Bytes)
  | [] => none
  | sign :: l =>
    if sign = 32 then some (.kept l)
    else if sign = 45 then some (.removed l)
    else if sign = 43 then some (.added l)
    else none

/-- The lines up to the next header, and the hunks from there on. A line that the
    marker follows loses its line feed. -/
def readBody : List Bytes → Option (List (Mark Bytes) × List (Hunk Bytes))
  | [] => some ([], [])
  | text :: rest =>
    (readBody rest).bind fun (marks, hs) =>
      if text = marker then some (marks, hs)
      else
        match readHeader text with
        | some ((oldStart, oldSize), (newStart, newSize)) =>
          let h : Hunk Bytes := ⟨oldStart, newStart, marks⟩
          if h.oldSize = oldSize ∧ h.newSize = newSize then some ([], h :: hs) else none
        | none =>
          (readSigned (if rest.head? = some marker then text.dropLast else text)).map fun m =>
            (m :: marks, hs)

/-- The hunks of a patch that follow some lines of another kind. -/
def readAfter (skipped : Nat) (patch : Bytes) : Option (List (Hunk Bytes)) :=
  match readBody ((cut patch).drop skipped) with
  | some ([], hs) => some hs
  | _ => none

/-- The text holds a line feed at its end and nowhere else. -/
def OneLine (text : Bytes) : Prop :=
  ∃ body, lf ∉ body ∧ text = body ++ [lf]

/-- A line is cut off the front of a text. -/
theorem cut_oneLine {text : Bytes} (h : OneLine text) (rest : Bytes) :
    cut (text ++ rest) = text :: cut rest := by
  rcases h with ⟨body, hbody, rfl⟩
  rw [List.append_assoc, List.singleton_append]
  induction body with
  | nil => rw [List.nil_append, cut, if_pos rfl, List.nil_append]
  | cons b body ih =>
    rw [List.mem_cons, not_or] at hbody
    rw [List.cons_append, cut, if_neg (Ne.symm hbody.1), ih hbody.2, consFirst, List.cons_append]

theorem oneLine_marker : OneLine marker :=
  ⟨ofAscii "\\ No newline at end of file", by decide, rfl⟩

theorem readRange_range (start size : Nat) : readRange (range start size) = some (start, size) := by
  have hcomma : ∀ n, (44 : UInt8) ∉ ofNat n := fun n => not_mem_ofNat (by decide)
  have hone : range start 1 = ofNat (start + 1) := rfl
  have hmany : ∀ size, range start (size + 2) = ofNat (start + 1) ++ 44 :: ofNat (size + 2) := by
    intro size
    rw [range, List.append_assoc]
    · rfl
    · omega
    · omega
  have hzero : range start 0 = ofNat start ++ 44 :: ofNat 0 := rfl
  -- A range that holds no line is named by the line before it, any other by its first.
  rcases size with _ | _ | size
  · rw [hzero, readRange, pieces_append_cons (hcomma _), pieces_of_not_mem (hcomma _)]
    simp only [toNat?_ofNat, Option.bind_some, place, if_true]
  · rw [Nat.zero_add, hone, readRange, pieces_of_not_mem (hcomma _)]
    simp only [toNat?_ofNat, Option.bind_some, place]
    rfl
  · rw [Nat.add_assoc, hmany, readRange, pieces_append_cons (hcomma _),
      pieces_of_not_mem (hcomma _)]
    simp only [toNat?_ofNat, Option.bind_some, place]
    rfl

theorem not_mem_range {b : UInt8} (hb : b.toNat < 44) (start size : Nat) :
    b ∉ range start size := by
  have hdigits : ∀ n, b ∉ ofNat n := fun n => not_mem_ofNat (by omega)
  have hcomma : b ∉ ofAscii "," := by
    rw [show ofAscii "," = [44] from rfl, List.mem_singleton]
    rintro rfl
    exact absurd hb (by decide)
  intro h
  unfold range at h
  -- However the range is printed, it is made of digits and a comma.
  split at h
  · rcases List.mem_append.1 h with h | h
    · exact hdigits _ h
    · rcases List.mem_cons.1 h with rfl | h
      · exact absurd hb (by decide)
      · exact hdigits 0 h
  · exact hdigits _ h
  · rcases List.mem_append.1 h with h | h
    · rcases List.mem_append.1 h with h | h
      · exact hdigits _ h
      · exact hcomma h
    · exact hdigits _ h

theorem header_eq (h : Hunk Bytes) :
    header h = ofAscii "@@" ++ space :: (45 :: range h.oldStart h.oldSize ++
      space :: (43 :: range h.newStart h.newSize ++ space :: ofAscii "@@\n")) := by
  rw [header]
  simp only [List.append_assoc]
  rfl

/-- A printed header is read back. -/
theorem readHeader_header (h : Hunk Bytes) :
    readHeader (header h) = some ((h.oldStart, h.oldSize), (h.newStart, h.newSize)) := by
  have hrange : ∀ (sign : UInt8) (start size : Nat), sign ≠ space →
      space ∉ sign :: range start size := by
    intro sign start size hsign hmem
    rcases List.mem_cons.1 hmem with rfl | hmem
    · exact hsign rfl
    · exact not_mem_range (by decide) start size hmem
  have hpieces : pieces space (header h) =
      [ofAscii "@@", 45 :: range h.oldStart h.oldSize, 43 :: range h.newStart h.newSize,
        ofAscii "@@\n"] := by
    rw [header_eq, pieces_append_cons (by decide), pieces_append_cons (hrange _ _ _ (by decide)),
      pieces_append_cons (hrange _ _ _ (by decide)), pieces_of_not_mem (by decide)]
  rw [readHeader, hpieces]
  simp only [and_self, if_true, readRange_range, Option.bind_some, Option.map_some]

theorem oneLine_header (h : Hunk Bytes) : OneLine (header h) := by
  have hrange : ∀ start size, lf ∉ range start size := not_mem_range (by decide)
  refine ⟨ofAscii "@@" ++ space :: (45 :: range h.oldStart h.oldSize ++
    space :: (43 :: range h.newStart h.newSize ++ space :: ofAscii "@@")), ?_, ?_⟩
  · simp only [List.mem_append, List.mem_cons, hrange, or_false, not_or]
    decide
  · rw [header_eq]
    simp only [List.append_assoc, List.cons_append]
    rfl

/-- Only a text that opens with the sign of a header can be one. -/
theorem head?_of_readHeader {text : Bytes} {ranges : (Nat × Nat) × (Nat × Nat)}
    (h : readHeader text = some ranges) : text.head? = some 64 := by
  unfold readHeader at h
  split at h
  · rename_i hpieces
    split at h
    · rename_i hends
      rw [← intercalate_pieces space text, hpieces, hends.1]
      rfl
    · exact absurd h (by simp only [reduceCtorEq, not_false_eq_true])
  · exact absurd h (by simp only [reduceCtorEq, not_false_eq_true])

-- The signs of lines are three of a kind, so one look tells a line of a text from what
-- stands between them.
theorem sign_ne {b : UInt8} (hb : b ≠ 32 ∧ b ≠ 45 ∧ b ≠ 43) (m : Mark Bytes) :
    (signed m).1 ≠ b := by
  cases m with
  | kept l => exact Ne.symm hb.1
  | removed l => exact Ne.symm hb.2.1
  | added l => exact Ne.symm hb.2.2

theorem readHeader_signed (m : Mark Bytes) (text : Bytes) :
    readHeader ((signed m).1 :: text) = none := by
  rcases hread : readHeader ((signed m).1 :: text) with _ | ranges
  · rfl
  · have hhead := head?_of_readHeader hread
    rw [List.head?_cons, Option.some_inj] at hhead
    exact absurd hhead (sign_ne (by decide) m)

theorem signed_ne_marker (m : Mark Bytes) (text : Bytes) : (signed m).1 :: text ≠ marker := by
  intro h
  have hhead : some (signed m).1 = some 92 := congrArg List.head? h
  rw [Option.some_inj] at hhead
  exact absurd hhead (sign_ne (by decide) m)

theorem header_ne_marker (h : Hunk Bytes) : header h ≠ marker := by
  intro heq
  have hhead : some (64 : UInt8) = some 92 := congrArg List.head? heq
  exact absurd hhead (by decide)

theorem readSigned_signed (m : Mark Bytes) :
    readSigned ((signed m).1 :: (signed m).2) = some m := by
  cases m <;> rfl

/-- The line of a text holds a line feed at its end or nowhere. -/
def Unbroken (l : Bytes) : Prop :=
  lf ∉ l.dropLast

/-- A line without a line feed at its end has none. -/
theorem lf_not_mem_of_unbroken {l : Bytes} (h : Unbroken l) (hlf : Lines.endsInLf l = false) :
    lf ∉ l := by
  rcases List.eq_nil_or_concat l with rfl | ⟨body, b, rfl⟩
  · exact List.not_mem_nil
  · rw [List.concat_eq_append] at h hlf ⊢
    rw [Unbroken, List.dropLast_concat] at h
    rw [Lines.endsInLf, List.getLast?_concat] at hlf
    -- Neither the bytes before the last are a line feed, nor is the last.
    intro hmem
    rcases List.mem_append.1 hmem with hmem | hmem
    · exact h hmem
    · rw [List.mem_singleton] at hmem
      rw [hmem, beq_self_eq_true] at hlf
      exact absurd hlf (by decide)

theorem oneLine_of_unbroken {l : Bytes} (h : Unbroken l) (hlf : Lines.endsInLf l = true)
    {sign : UInt8} (hsign : sign ≠ lf) : OneLine (sign :: l) := by
  rcases List.eq_nil_or_concat l with rfl | ⟨body, b, rfl⟩
  · -- A line that ends in a line feed is not empty.
    exact absurd hlf (by decide)
  · rw [List.concat_eq_append] at h hlf ⊢
    rw [Unbroken, List.dropLast_concat] at h
    rw [Lines.endsInLf, List.getLast?_concat, beq_iff_eq, Option.some_inj] at hlf
    refine ⟨sign :: body, ?_, by rw [hlf, List.cons_append]⟩
    rw [List.mem_cons, not_or]
    exact ⟨Ne.symm hsign, h⟩

/-- What the reader finds in a text: some lines and the hunks behind them. The
    text does not open with the marker, so it leaves a line in front of it
    alone. -/
def Reads (text : Bytes) (marks : List (Mark Bytes)) (hs : List (Hunk Bytes)) : Prop :=
  readBody (cut text) = some (marks, hs) ∧ (cut text).head? ≠ some marker

/-- The parts of a printed line between line feeds. If the line is not ended by a line feed, one
    is put behind it, and the marker follows. -/
def parts (m : Mark Bytes) : List Bytes :=
  if Lines.endsInLf (signed m).2 then [(signed m).1 :: (signed m).2]
  else [(signed m).1 :: (signed m).2 ++ [lf], marker]

/-- A line of a hunk is cut into its parts. -/
theorem cut_line {m : Mark Bytes} (hm : Unbroken (signed m).2) (text : Bytes) :
    cut (line m ++ text) = parts m ++ cut text := by
  have hsign : (signed m).1 ≠ lf := sign_ne (by decide) m
  rw [line, parts]
  by_cases hlf : Lines.endsInLf (signed m).2
  · rw [if_pos hlf, if_pos hlf, List.append_nil, cut_oneLine (oneLine_of_unbroken hm hlf hsign)]
    rfl
  · rw [if_neg hlf, if_neg hlf]
    rw [Bool.not_eq_true] at hlf
    have hone : OneLine ((signed m).1 :: (signed m).2 ++ [lf]) := by
      refine ⟨(signed m).1 :: (signed m).2, ?_, rfl⟩
      rw [List.mem_cons, not_or]
      exact ⟨Ne.symm hsign, lf_not_mem_of_unbroken hm hlf⟩
    have hunfinished : unfinished = [lf] ++ marker := rfl
    rw [hunfinished, ← List.append_assoc, List.append_assoc _ marker, cut_oneLine hone,
      cut_oneLine oneLine_marker]
    rfl

theorem reads_line {m : Mark Bytes} (hm : Unbroken (signed m).2) {text : Bytes}
    {marks : List (Mark Bytes)} {hs : List (Hunk Bytes)} (h : Reads text marks hs) :
    Reads (line m ++ text) (m :: marks) hs := by
  rw [Reads, cut_line hm, parts]
  by_cases hlf : Lines.endsInLf (signed m).2
  · -- The line is cut where it ends, and what follows is not the marker.
    rw [if_pos hlf, List.singleton_append]
    constructor
    · rw [readBody, h.1]
      simp only [Option.bind_some, signed_ne_marker, readHeader_signed, h.2, if_false,
        readSigned_signed, Option.map_some]
    · rw [List.head?_cons, ne_eq, Option.some_inj]
      exact signed_ne_marker m _
  · -- The line feed in front of the marker is taken off again.
    rw [if_neg hlf, List.cons_append, List.singleton_append]
    constructor
    · rw [readBody, readBody, h.1, List.cons_append]
      simp only [Option.bind_some, if_true, signed_ne_marker, readHeader_signed, if_false,
        List.head?_cons]
      rw [← List.cons_append, List.dropLast_concat, readSigned_signed, Option.map_some]
    · rw [List.head?_cons, ne_eq, Option.some_inj]
      exact signed_ne_marker m _

/-- The lines of a hunk are read one by one. -/
theorem reads_lines {marks : List (Mark Bytes)} (hmarks : ∀ m ∈ marks, Unbroken (signed m).2)
    {text : Bytes} {hs : List (Hunk Bytes)} (h : Reads text [] hs) :
    Reads (marks.flatMap line ++ text) marks hs := by
  induction marks with
  | nil => exact h
  | cons m marks ih =>
    rw [List.flatMap_cons, List.append_assoc]
    exact reads_line (hmarks m List.mem_cons_self)
      (ih fun n hn => hmarks n (List.mem_cons_of_mem _ hn))

/-- Printed hunks are read back. -/
theorem reads_hunks {hs : List (Hunk Bytes)}
    (hlines : ∀ h ∈ hs, ∀ m ∈ h.marks, Unbroken (signed m).2) :
    Reads (hs.flatMap hunk) [] hs := by
  induction hs with
  | nil => exact ⟨rfl, by decide⟩
  | cons h hs ih =>
    have hrest := reads_lines (hlines h List.mem_cons_self)
      (ih fun k hk => hlines k (List.mem_cons_of_mem _ hk))
    have hcut : cut ((h :: hs).flatMap hunk) =
        header h :: cut (h.marks.flatMap line ++ hs.flatMap hunk) := by
      rw [List.flatMap_cons, hunk, List.append_assoc, cut_oneLine (oneLine_header h)]
    constructor
    · rw [hcut, readBody, hrest.1]
      simp only [Option.bind_some, header_ne_marker, if_false, readHeader_header, and_self,
        if_true]
    · rw [hcut, List.head?_cons, ne_eq, Option.some_inj]
      exact header_ne_marker h

-- The lines of a text hold line feeds at their ends only.
theorem unbroken_of_mem_split {text l : Bytes} (h : l ∈ Lines.split text) : Unbroken l := by
  induction text generalizing l with
  | nil => exact absurd h List.not_mem_nil
  | cons b rest ih =>
    rw [Lines.split] at h
    by_cases hb : Lines.endsLine b rest
    · rw [if_pos hb] at h
      rcases List.mem_cons.1 h with rfl | h
      · exact List.not_mem_nil
      · exact ih h
    · rw [if_neg hb] at h
      have hne : lf ≠ b := by
        rintro rfl
        exact hb (by rw [Lines.endsLine, beq_self_eq_true, Bool.true_or])
      -- The byte joins the first line of the rest, which keeps its end.
      rcases hsplit : Lines.split rest with _ | ⟨first, others⟩
      · rw [hsplit, consFirst, List.mem_singleton] at h
        rw [h]
        exact List.not_mem_nil
      · rw [hsplit] at h ih
        rcases List.mem_cons.1 h with rfl | h
        · have hfirst : Unbroken first := ih List.mem_cons_self
          rcases first with _ | ⟨c, first⟩
          · exact List.not_mem_nil
          · rw [Unbroken, List.dropLast_cons_cons, List.mem_cons, not_or]
            exact ⟨hne, hfirst⟩
        · exact ih (List.mem_cons_of_mem _ h)

/-- The lines of a hunk are lines of the texts compared. -/
theorem mem_split_of_mem_changes {old new : Bytes} {h : Hunk Bytes} (hh : h ∈ changes old new)
    {m : Mark Bytes} (hm : m ∈ h.marks) :
    (signed m).2 ∈ Lines.split old ∨ (signed m).2 ∈ Lines.split new := by
  have hscript := ((leads_hunks _).shown h hh).subset hm
  have hold : ∀ l, m.old? = some l → l ∈ Lines.split old := by
    intro l hl
    rw [← oldSide_script (Lines.split old) (Lines.split new)]
    exact List.mem_filterMap.2 ⟨m, hscript, hl⟩
  have hnew : ∀ l, m.new? = some l → l ∈ Lines.split new := by
    intro l hl
    rw [← newSide_script (Lines.split old) (Lines.split new)]
    exact List.mem_filterMap.2 ⟨m, hscript, hl⟩
  cases m with
  | kept l => exact .inl (hold l rfl)
  | removed l => exact .inl (hold l rfl)
  | added l => exact .inr (hnew l rfl)

theorem unbroken_of_mem_changes {old new : Bytes} {h : Hunk Bytes} (hh : h ∈ changes old new)
    {m : Mark Bytes} (hm : m ∈ h.marks) : Unbroken (signed m).2 := by
  rcases mem_split_of_mem_changes hh hm with hmem | hmem
  · exact unbroken_of_mem_split hmem
  · exact unbroken_of_mem_split hmem

/-- The number of lines that name the texts compared. -/
def labelLines : Nat := 2

/-- The parts of the label lines between line feeds. -/
def labelParts (name : Bytes) : List Bytes :=
  [ofAscii "--- a/" ++ name ++ [lf], ofAscii "+++ b/" ++ name ++ [lf]]

theorem cut_labels {name : Bytes} (hname : lf ∉ name) (text : Bytes) :
    cut (labels name ++ text) = labelParts name ++ cut text := by
  have hlabel : ∀ opening, lf ∉ opening → OneLine (opening ++ name ++ [lf]) := by
    intro opening hopening
    refine ⟨opening ++ name, ?_, rfl⟩
    rw [List.mem_append, not_or]
    exact ⟨hopening, hname⟩
  rw [labels, List.append_assoc, cut_oneLine (hlabel _ (by decide)),
    cut_oneLine (hlabel _ (by decide))]
  rfl

/-- A printed patch is read back. -/
theorem readBody_cut_unified (old new : Bytes) {name : Bytes} (hname : lf ∉ name) :
    readBody ((cut (unified old new name)).drop labelLines) =
      some ([], if old = new then [] else changes old new) := by
  rw [unified]
  split
  · rfl
  · have hdrop : ∀ texts, (labelParts name ++ texts).drop labelLines = texts := fun _ => rfl
    rw [cut_labels hname, hdrop]
    exact (reads_hunks fun h hh m hm => unbroken_of_mem_changes hh hm).1

/-- The hunks of a printed patch are found again, and they lead from the old text to
    the new one and back. -/
theorem exists_hunks_of_unified (old new : Bytes) {name : Bytes} (hname : lf ∉ name) :
    ∃ hs, readAfter labelLines (unified old new name) = some hs ∧
      applyHunks hs (Lines.split old) = some (Lines.split new) ∧
      applyHunks (hs.map Hunk.flip) (Lines.split new) = some (Lines.split old) := by
  -- Without a change nothing is printed, so no hunk is read.
  refine ⟨if old = new then [] else changes old new, ?_, ?_, ?_⟩
  · rw [readAfter, readBody_cut_unified old new hname]
  · split
    · rename_i heq
      rw [heq]
      rfl
    · exact applyHunks_script _ _
  · split
    · rename_i heq
      rw [heq]
      rfl
    · exact applyHunks_flip_script _ _

/-- The text that a patch makes of another, where the patch follows some lines of
    another kind. -/
def apply (skipped : Nat) (patch old : Bytes) : Option Bytes :=
  (readAfter skipped patch).bind fun hs =>
    (applyHunks hs (Lines.split old)).map List.flatten

/-- A printed patch that follows one more line makes the new text of the old one. -/
theorem apply_append_unified {opening : Bytes} (hopening : OneLine opening) (old new : Bytes)
    {name : Bytes} (hname : lf ∉ name) :
    apply (labelLines + 1) (opening ++ unified old new name) old = some new := by
  rcases exists_hunks_of_unified old new hname with ⟨hs, hread, happly, -⟩
  have hafter : readAfter (labelLines + 1) (opening ++ unified old new name) = some hs := by
    rw [readAfter, cut_oneLine hopening, List.drop_succ_cons]
    exact hread
  rw [apply, hafter, Option.bind_some, happly, Option.map_some, Lines.flatten_split]

end Patch

/-- A patch can be read back and applied. From the old text its hunks lead to the
    new one, line by line and at the positions that the headers give, and read
    backwards they lead from the new text to the old. It is empty exactly if
    nothing changed. -/
theorem unified_roundTrip (old new name : Bytes) (hname : lf ∉ name) :
    (∃ hs, Patch.readAfter Patch.labelLines (unified old new name) = some hs ∧
      applyHunks hs (Lines.split old) = some (Lines.split new) ∧
      applyHunks (hs.map Hunk.flip) (Lines.split new) = some (Lines.split old)) ∧
    (Lines.split old).flatten = old ∧ (Lines.split new).flatten = new ∧
    (unified old new name = [] ↔ old = new) := by
  refine ⟨Patch.exists_hunks_of_unified old new hname, Lines.flatten_split old,
    Lines.flatten_split new, ?_⟩
  rw [unified]
  split
  · rename_i heq
    exact iff_of_true rfl heq
  · rename_i hne
    refine iff_of_false ?_ hne
    rw [Patch.labels, List.append_assoc]
    exact List.cons_ne_nil _ _

/-- Lines that end in a bare carriage return, and a last line that has no end. -/
theorem unified_roundTrip_bareReturn :
    let old := ofAscii "  a\rb"
    let new := ofAscii "\ta\rb\r"
    lf ∉ ofAscii "x.conf" ∧
      (∃ hs, Patch.readAfter Patch.labelLines (unified old new (ofAscii "x.conf")) = some hs ∧
        applyHunks hs (Lines.split old) = some (Lines.split new) ∧
        applyHunks (hs.map Hunk.flip) (Lines.split new) = some (Lines.split old)) ∧
      (Lines.split old).flatten = old ∧ (Lines.split new).flatten = new ∧
      (unified old new (ofAscii "x.conf") = [] ↔ old = new) :=
  ⟨by decide, unified_roundTrip _ _ _ (by decide)⟩

end Diff

end ConfIndent
