import ConfIndent.Proofs.Text.Labels

/-!
# Text Shown Line by Line

Where no charset is named a text is read strictly if that is possible, and otherwise with
replacement characters from the first byte on. That sounds as if one damaged byte could change
how the rest is shown. It cannot. What is read strictly is read the same with replacement, so
there is only one way of reading, and it reads a text in parts wherever a part does not begin
with a byte that goes on with a character.

A line feed is such a place on either side, and so is the sign in front of a line of a hunk. The
change of a document that has no charset is therefore shown as if each of its lines stood alone,
whatever is in the others, and its headers are shown as they are.

## Main definitions

* `Patch.shownLine`, `Patch.shownHunk`: A line and a hunk, each line of it read alone.

## Theorems

* `Utf8.decodeLossy_append`: A text is shown in parts.
* `Utf8.decodeLossy_pieces`: A text is shown piece by piece.
* `Patch.decodeLossy_hunk`: The lines of a hunk are shown one by one.
* `displayNamed_local`: What is shown of a text depends on nothing around it.
-/

namespace ConfIndent

open Bytes Diff.Patch

namespace Utf8

/-- A text is shown in parts wherever a part starts with a byte that goes on with nothing. -/
theorem decodeLossy_append (front : Bytes) {rest : Bytes} (h : ∀ b ∈ rest.head?, ¬Continues b) :
    decodeLossy (front ++ rest) = decodeLossy front ++ decodeLossy rest := by
  rw [decodeLossy, fragments_append front h, List.map_append]
  rfl

theorem decodeLossy_cons {b : UInt8} (hb : b < 0x80) (rest : Bytes) :
    decodeLossy (b :: rest) = Char.ofNat b.toNat :: decodeLossy rest := by
  rw [decodeLossy, fragments_cons hb, List.map_cons]
  rfl

theorem decodeLossy_ascii_append {front : Bytes} (hfront : Ascii front) (rest : Bytes) :
    decodeLossy (front ++ rest) = characters front ++ decodeLossy rest :=
  Option.some_inj.1 (parted_decodeLossy.read_ascii_append hfront rest)

theorem decodeLossy_ascii {bytes : Bytes} (h : Ascii bytes) :
    decodeLossy bytes = characters bytes :=
  Option.some_inj.1 (parted_decodeLossy.read_ascii h)

/-- What was joined by a byte of ASCII is shown joined by its character. -/
theorem decodeLossy_intercalate {sep : UInt8} (hsep : sep < 0x80) (ps : List Bytes) :
    decodeLossy (List.intercalate [sep] ps) =
      List.intercalate [Char.ofNat sep.toNat] (ps.map decodeLossy) := by
  induction ps with
  | nil => rfl
  | cons p ps ih =>
    rcases ps with _ | ⟨q, qs⟩
    · rw [List.intercalate_singleton, List.map_singleton, List.intercalate_singleton]
    · have hjoined : ∀ b ∈ ([sep] ++ List.intercalate [sep] (q :: qs)).head?, ¬Continues b := by
        intro b hb
        cases hb
        exact not_continues_of_lt hsep
      rw [List.map_cons] at ih
      rw [List.intercalate_cons_cons, List.append_assoc, decodeLossy_append p hjoined,
        List.singleton_append, decodeLossy_cons hsep, ih, List.map_cons, List.map_cons,
        List.intercalate_cons_cons, List.append_assoc, List.singleton_append]

/-- A text is shown piece by piece, as if each piece stood alone. -/
theorem decodeLossy_pieces {sep : UInt8} (hsep : sep < 0x80) (text : Bytes) :
    decodeLossy text =
      List.intercalate [Char.ofNat sep.toNat] ((pieces sep text).map decodeLossy) := by
  rw [← decodeLossy_intercalate hsep, intercalate_pieces]

/-- Parts that start with a byte of ASCII are shown one by one. -/
theorem decodeLossy_flatMap {α : Type} {part : α → Bytes}
    (h : ∀ x, ∃ b rest, part x = b :: rest ∧ b < 0x80) (xs : List α) :
    decodeLossy (xs.flatMap part) = xs.flatMap fun x => decodeLossy (part x) := by
  induction xs with
  | nil => rfl
  | cons x xs ih =>
    have hnext : ∀ b ∈ (xs.flatMap part).head?, ¬Continues b := by
      intro b hb
      rcases xs with _ | ⟨y, ys⟩
      · cases hb
      · rcases h y with ⟨c, rest, hpart, hc⟩
        rw [List.flatMap_cons, hpart] at hb
        cases hb
        exact not_continues_of_lt hc
    rw [List.flatMap_cons, List.flatMap_cons, decodeLossy_append _ hnext, ih]

end Utf8

/-- Without the name of a charset there is one way of reading. -/
theorem displayNamed_none (bytes : Bytes) :
    displayNamed bytes none = .ok (Utf8.decodeLossy bytes) := by
  rw [displayNamed, ← Charset.display_none]
  rfl

namespace Diff.Patch

/-- A line of a hunk as it is shown if it is read alone. -/
def shownLine (m : Mark Bytes) : List Char :=
  Char.ofNat (signed m).1.toNat :: Utf8.decodeLossy (signed m).2 ++
    if Lines.endsInLf (signed m).2 then [] else characters unfinished

/-- A hunk as it is shown if each of its lines is read alone. -/
def shownHunk (h : Hunk Bytes) : List Char :=
  characters (header h) ++ h.marks.flatMap shownLine

theorem ascii_unfinished : Ascii unfinished := by
  decide

/-- A line is shown by itself, behind its sign and before the marker. -/
theorem decodeLossy_line (m : Mark Bytes) : Utf8.decodeLossy (line m) = shownLine m := by
  rw [line, shownLine, List.cons_append, Utf8.decodeLossy_cons (sign_lt m), List.cons_append]
  split
  · rw [List.append_nil, List.append_nil]
  · have hmarker : ∀ b ∈ unfinished.head?, ¬Utf8.Continues b := by
      intro b hb
      cases hb
      exact Utf8.not_continues_of_lt (by decide)
    rw [Utf8.decodeLossy_append _ hmarker, Utf8.decodeLossy_ascii ascii_unfinished]

theorem exists_sign_line (m : Mark Bytes) : ∃ b rest, line m = b :: rest ∧ b < 0x80 :=
  ⟨_, _, List.cons_append, sign_lt m⟩

theorem exists_at_hunk (h : Hunk Bytes) : ∃ b rest, hunk h = b :: rest ∧ b < 0x80 :=
  ⟨64, _, rfl, by decide⟩

/-- The lines of a hunk are shown one by one behind its header. -/
theorem decodeLossy_hunk (h : Hunk Bytes) : Utf8.decodeLossy (hunk h) = shownHunk h := by
  rw [hunk, shownHunk, Utf8.decodeLossy_ascii_append (ascii_header h),
    Utf8.decodeLossy_flatMap exists_sign_line]
  simp only [decodeLossy_line]

end Diff.Patch

/-- What is shown of a text without a charset depends on nothing around it. A text that was
    written is shown as it was, and a text is shown in parts wherever a part starts with a byte
    that goes on with no character. So a change is shown as if each of its lines stood alone,
    between its line feeds, and each line of the documents too, behind its sign, and its headers
    are shown as they are. -/
theorem displayNamed_local :
    let shown := Utf8.decodeLossy
    (∀ bytes, displayNamed bytes none = .ok (shown bytes)) ∧
    (∀ text, shown (Utf8.encode text) = text) ∧
    (∀ front rest : Bytes, (∀ b ∈ rest.head?, ¬Utf8.Continues b) →
      shown (front ++ rest) = shown front ++ shown rest) ∧
    ∀ (detector : Detector) (document name : Bytes), detector document = none →
      ∃ text, (Report.ofDocument document name true detector).diff = some text ∧
        text = List.intercalate ['\n']
          ((pieces lf (Diff.unified document (retab document) name)).map shown) ∧
        (retab document ≠ document →
          text = labelText (shown name) ++
            (Diff.changes document (retab document)).flatMap shownHunk) := by
  intro shown
  refine ⟨displayNamed_none, ?_, fun front rest => Utf8.decodeLossy_append front, ?_⟩
  · exact fun text => Utf8.decodeLossy_of_decode? (Utf8.decode?_encode text)
  intro detector document name hdetect
  have hdiff : (Report.ofDocument document name true detector).diff =
      some (shown (Diff.unified document (retab document) name)) := by
    rw [Report.ofDocument, if_pos rfl, hdetect]
    rfl
  refine ⟨_, hdiff, Utf8.decodeLossy_pieces (by decide : lf < 0x80) _, ?_⟩
  intro hchanged
  have hlabels : shown (labels name ++ changedLines document) =
      labelText (shown name) ++ shown (changedLines document) :=
    Option.some_inj.1 (Utf8.parted_decodeLossy.read_labels name _)
  have hlines : shown (changedLines document) =
      (Diff.changes document (retab document)).flatMap shownHunk := by
    change Utf8.decodeLossy _ = _
    rw [changedLines, Utf8.decodeLossy_flatMap exists_at_hunk]
    simp only [decodeLossy_hunk]
  rw [Diff.unified, if_neg (Ne.symm hchanged), ← hlines, ← hlabels]
  rfl

/-- A character cut short does not damage the letter behind it, and at the end of a document it
    is shown in its own line only. -/
theorem displayNamed_local_stray :
    let stray : Bytes := [0xE2, 0x82]
    let document := ofAscii "  a\n" ++ stray
    (∀ b ∈ (ofAscii "a").head?, ¬Utf8.Continues b) ∧
      Utf8.decodeLossy (stray ++ ofAscii "a") = ['\uFFFD', 'a'] ∧
      detect document = none ∧ retab document ≠ document ∧
      (Report.ofDocument document (ofAscii "x") true).diff =
        some ("--- a/x\n+++ b/x\n@@ -1,2 +1,2 @@\n-  a\n+\ta\n \uFFFD\n".toList ++
          "\\ No newline at end of file\n".toList) := by
  intro stray document
  have hletter : ∀ b ∈ (ofAscii "a").head?, ¬Utf8.Continues b := by
    intro b hb
    cases hb
    exact Utf8.not_continues_of_lt (by decide)
  have hdetect : detect document = none := by
    decide +kernel
  have hchanged : retab document ≠ document := by
    decide +kernel
  rcases displayNamed_local with ⟨-, -, hparts, hdiff⟩
  rcases hdiff detect document (ofAscii "x") hdetect with ⟨text, htext, -, hlines⟩
  refine ⟨hletter, ?_, hdetect, hchanged, ?_⟩
  · rw [hparts stray (ofAscii "a") hletter]
    decide +kernel
  · rw [htext, hlines hchanged]
    decide +kernel

end ConfIndent
