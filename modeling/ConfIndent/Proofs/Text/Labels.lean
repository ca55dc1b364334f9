import ConfIndent.Proofs.Text.Bytewise
import ConfIndent.Proofs.Text.Shown

/-!
# Labels in the Charset of the Document

The labels of a patch hold a name in UTF-8, the lines behind them hold the document, and
both are read together in the charset of the document. A label therefore shows what the
bytes of the name are in that charset, which need not be the name.

It also works the other way. Reading in parts, a patch can be read if the name can be and
the lines can be. The lines can be read in the charset, since it is that of the document. If
the name cannot, the whole patch is read as UTF-8, and then the name comes out as it is and
the lines may not. So of two names one may leave the change as it is in the document and
the other may not.

Of the charsets that the rules tell only Windows-1252 leaves room for that. In Latin-1 and in
UTF-8 every name can be read, and in ASCII the lines are the same either way.

## Main definitions

* `Patch.labelText`: The two lines of labels as text.
* `Patch.behindLabels`: What stands behind the two lines of labels.
* `shownHunks`: The hunks of a patch as they are shown behind labels.
* `changedLines`: The lines of a change behind its labels.

## Theorems

* `Patch.labelText_isPrefix_iff`: Labels show the name they hold and no other.
* `Parted.read_labels`, `display_labels`: Labels are read apart from the name and the lines.
* `shownHunks_eq_iff`: When hunks are shown alike behind two names.
* `Report.diff_of_changed`: A change as it is shown.
* `Report.ofDocument_named`: What the name of a document decides.
-/

namespace ConfIndent

open Bytes

namespace Diff.Patch

/-- The two lines of labels as text. -/
def labelText (name : List Char) : List Char :=
  "--- a/".toList ++ name ++ ['\n'] ++ ("+++ b/".toList ++ name ++ ['\n'])

/-- What stands behind the first line of a text. -/
def behindLine (text : List Char) : List Char :=
  (text.dropWhile (· ≠ '\n')).tail

/-- What stands behind the two lines of labels. -/
def behindLabels (text : List Char) : List Char :=
  behindLine (behindLine text)

section Line

variable {line : List Char} (h : '\n' ∉ line)

include h

theorem ne_of_mem_line : ∀ c ∈ line, decide (c ≠ '\n') = true := by
  intro c hc
  rw [decide_eq_true_iff]
  rintro rfl
  exact h hc

theorem takeWhile_line (rest : List Char) :
    (line ++ '\n' :: rest).takeWhile (· ≠ '\n') = line := by
  rw [List.takeWhile_append_of_pos (ne_of_mem_line h), List.takeWhile_cons_of_neg (by decide),
    List.append_nil]

theorem behindLine_line (rest : List Char) : behindLine (line ++ '\n' :: rest) = rest := by
  rw [behindLine, List.dropWhile_append_of_pos (ne_of_mem_line h),
    List.dropWhile_cons_of_neg (by decide), List.tail_cons]

end Line

theorem labelText_append (name rest : List Char) :
    labelText name ++ rest = ("--- a/".toList ++ name) ++ '\n' ::
      (("+++ b/".toList ++ name) ++ '\n' :: rest) := by
  unfold labelText
  generalize "--- a/".toList = old, "+++ b/".toList = new
  simp only [List.append_assoc, List.cons_append, List.nil_append]

/-- Behind labels stands what was put behind them. -/
theorem behindLabels_labelText {name : List Char} (h : '\n' ∉ name) (rest : List Char) :
    behindLabels (labelText name ++ rest) = rest := by
  have hold : '\n' ∉ "--- a/".toList ++ name :=
    fun hmem => (List.mem_append.1 hmem).elim (by decide) h
  have hnew : '\n' ∉ "+++ b/".toList ++ name :=
    fun hmem => (List.mem_append.1 hmem).elim (by decide) h
  rw [labelText_append, behindLabels, behindLine_line hold, behindLine_line hnew]

/-- Labels show the name they hold and no other. -/
theorem labelText_isPrefix_iff {name other : List Char} (hname : '\n' ∉ name)
    (hother : '\n' ∉ other) (rest : List Char) :
    labelText name <+: labelText other ++ rest ↔ name = other := by
  constructor
  · rintro ⟨more, h⟩
    rw [labelText_append, labelText_append, List.append_assoc "--- a/".toList,
      List.append_assoc "--- a/".toList] at h
    have hline := congrArg (List.takeWhile (· ≠ '\n')) (List.append_cancel_left h)
    rwa [takeWhile_line hname, takeWhile_line hother] at hline
  · rintro rfl
    exact List.prefix_append _ _

end Diff.Patch

namespace Parted

variable {read : Bytes → Option (List Char)} (hread : Parted read)

include hread

/-- Labels are read apart from the name and from what stands behind them. -/
theorem read_labels (name rest : Bytes) :
    read (Diff.Patch.labels name ++ rest) =
      (read name).bind fun shown => (read rest).map (Diff.Patch.labelText shown ++ ·) := by
  have hlf {back : Bytes} : read (name ++ lf :: back) =
      (read name).bind fun x => (read back).map fun y => x ++ '\n' :: y :=
    hread.read_append_cons name (by decide) back
  have hlabels : Diff.Patch.labels name ++ rest = ofAscii "--- a/" ++ (name ++ lf ::
      (ofAscii "+++ b/" ++ (name ++ lf :: rest))) := by
    simp only [Diff.Patch.labels, List.append_assoc, List.cons_append, List.nil_append]
  rw [hlabels, hread.read_ascii_append (by decide), hlf, hread.read_ascii_append (by decide), hlf]
  cases read name with
  | none => rfl
  | some shown =>
    cases read rest with
    | none => rfl
    | some text =>
      simp only [Option.bind_some, Option.map_some, Diff.Patch.labelText_append]
      rw [List.append_assoc, List.append_assoc]
      rfl

end Parted

-- With a name that is a text and has no line feed, labels have none either.
theorem lf_not_mem_display {charset : Option Charset}
    (hcharset : ∀ c ∈ charset, c ∈ Charset.extendAscii) {name : String}
    (hname : '\n' ∉ name.toList) :
    '\n' ∉ Charset.display charset (FileName.ofString name) := by
  have hlossy : '\n' ∉ Utf8.decodeLossy (FileName.ofString name) := by
    rwa [Utf8.decodeLossy_ofString]
  have hbytes : lf ∉ FileName.ofString name := Utf8.not_mem_encode (by decide) hname
  rcases charset with _ | c
  · exact hlossy
  · rw [Charset.display, Option.bind_some]
    cases htext : c.decode? (FileName.ofString name) with
    | none => exact hlossy
    | some text => exact Charset.lf_not_mem_of_decode? (hcharset c rfl) hbytes htext

/-- The hunks of a patch as they are shown behind labels with a name. -/
def shownHunks (charset : Option Charset) (name hunks : Bytes) : List Char :=
  if charset.all fun c => c.accepts name then Charset.display charset hunks
  else Utf8.decodeLossy hunks

/-- Labels show the name in the charset, if it can be read there. If it cannot, the hunks
    are read as the name is. -/
theorem display_labels {charset : Option Charset} {hunks : Bytes}
    (hcharset : ∀ c ∈ charset, c ∈ Charset.extendAscii ∧ c.accepts hunks = true) (name : Bytes) :
    Charset.display charset (Diff.Patch.labels name ++ hunks) =
      Diff.Patch.labelText (Charset.display charset name) ++ shownHunks charset name hunks := by
  have hlossy : Utf8.decodeLossy (Diff.Patch.labels name ++ hunks) =
      Diff.Patch.labelText (Utf8.decodeLossy name) ++ Utf8.decodeLossy hunks :=
    Option.some_inj.1 (Utf8.parted_decodeLossy.read_labels name hunks)
  rcases charset with _ | c
  · exact hlossy
  · rcases hcharset c rfl with ⟨hc, hhunks⟩
    rcases Option.isSome_iff_exists.1 hhunks with ⟨text, htext⟩
    have hread := (Charset.parted_of_mem hc).read_labels name hunks
    rw [shownHunks, Charset.display, Charset.display, Charset.display, Option.all_some,
      Charset.accepts, Option.bind_some, Option.bind_some, Option.bind_some, hread, htext]
    cases c.decode? name with
    | none => exact hlossy
    | some shown => rfl

/-- Behind two names hunks are shown alike if both can be read in the charset, or neither,
    or if it makes no difference. -/
theorem shownHunks_eq_iff {c : Charset} (hc : c ∈ Charset.extendAscii) (hutf8 : c ≠ .utf8)
    {hunks : Bytes} (hhunks : c.accepts hunks = true) (name other : Bytes) :
    shownHunks (some c) name hunks = shownHunks (some c) other hunks ↔
      c.accepts name = c.accepts other ∨ Ascii hunks := by
  have hiff := Charset.display_eq_decodeLossy_iff hc hutf8 hhunks
  rw [shownHunks, shownHunks, Option.all_some, Option.all_some]
  cases c.accepts name <;> cases c.accepts other
  · exact iff_of_true rfl (.inl rfl)
  · rw [or_iff_right Bool.false_ne_true, eq_comm]
    exact hiff
  · rw [or_iff_right Bool.false_ne_true.symm]
    exact hiff
  · exact iff_of_true rfl (.inl rfl)

/-- The lines of a change behind its labels. -/
def changedLines (document : Bytes) : Bytes :=
  (Diff.changes document (retab document)).flatMap Diff.Patch.hunk

/-- A document that is changed says its charset by other signs than a mark, so its change
    can be read there. -/
theorem accepts_changedLines {document : Bytes} {charset : Option Charset}
    (htold : Told document charset) (hchanged : retab document ≠ document) :
    ∀ c ∈ charset, c ∈ Charset.extendAscii ∧ c.accepts (changedLines document) = true := by
  rintro c rfl
  rcases cases_of_told htold with ⟨hmem, hdocument⟩ | ⟨-, b, rest, rfl, hb⟩
  · have hc := Charset.transparent_of_mem hmem
    exact ⟨hmem, hc.accepts_hunks hdocument (hc.accepts_retab hdocument)⟩
  · exact absurd (retab_cons hb rest) hchanged

namespace Report

variable {detector : Detector} {document : Bytes}

/-- A change is shown as labels and hunks, in the charset that the rules tell. -/
theorem diff_of_changed (htold : Told document (detector document))
    (hchanged : retab document ≠ document) (name : Bytes) :
    (ofDocument document name true detector).diff =
      some (Diff.Patch.labelText (Charset.display (detector document) name) ++
        shownHunks (detector document) name (changedLines document)) := by
  have hunified : Diff.unified document (retab document) name =
      Diff.Patch.labels name ++ changedLines document :=
    if_neg (Ne.symm hchanged)
  rw [ofDocument, if_pos rfl, hunified, display_labels (accepts_changedLines htold hchanged)]

theorem diff_of_same (hsame : retab document = document) (name : Bytes) :
    (ofDocument document name true detector).diff = some [] := by
  rw [ofDocument, if_pos rfl, hsame, Diff.unified, if_pos rfl, Charset.display_nil]

/-- Under an empty name there is nothing but the lines behind the labels to be read. -/
theorem ascii_unified_iff (hchanged : retab document ≠ document) :
    Ascii (Diff.unified document (retab document) []) ↔ Ascii (changedLines document) := by
  rw [Diff.unified, if_neg (Ne.symm hchanged)]
  constructor
  · intro h b hb
    exact h b (List.mem_append_right _ hb)
  · exact ascii_append (Diff.ascii_labels fun b hb => absurd hb List.not_mem_nil)

/-- Of the charsets that the rules tell only one can read some names but not others, and reads
    what is not ASCII. -/
theorem shownHunks_told_eq_iff {charset : Option Charset} (htold : Told document charset)
    (hchanged : retab document ≠ document) (name other : String) :
    shownHunks charset (FileName.ofString name) (changedLines document) =
        shownHunks charset (FileName.ofString other) (changedLines document) ↔
      (charset = some .windows1252 →
        Charset.windows1252.accepts (FileName.ofString name) =
            Charset.windows1252.accepts (FileName.ofString other) ∨
          Ascii (Diff.unified document (retab document) [])) := by
  have hcharset := accepts_changedLines htold hchanged
  rw [ascii_unified_iff hchanged]
  rcases charset with _ | c
  · exact iff_of_true rfl fun h => absurd h (by decide)
  rcases hcharset c rfl with ⟨hc, hlines⟩
  have hiff (hutf8 : c ≠ .utf8) := shownHunks_eq_iff hc hutf8 hlines
    (FileName.ofString name) (FileName.ofString other)
  simp only [Charset.extendAscii, List.mem_cons, List.not_mem_nil, or_false] at hc
  rcases hc with rfl | rfl | rfl | rfl
  · refine iff_of_true ((hiff (by decide)).2 (.inr ?_)) fun h => absurd h (by decide)
    exact Charset.accepts_ascii_iff.1 hlines
  · exact iff_of_true ((hiff (by decide)).2 (.inl rfl)) fun h => absurd h (by decide)
  · rw [hiff (by decide), forall_prop_of_true rfl]
  · refine iff_of_true ?_ fun h => absurd h (by decide)
    have haccepts (name : String) : Charset.utf8.accepts (FileName.ofString name) = true := by
      rw [Charset.accepts, Charset.decode?, FileName.ofString, Utf8.decode?_encode,
        Option.isSome_some]
    rw [shownHunks, shownHunks, Option.all_some, Option.all_some, haccepts, haccepts]

/-- Under two names all else that is told about a document is the same. The lines behind the
    labels are shown alike too, unless they hold more than ASCII, the document is in Windows-1252
    and only one of the names can be read there. -/
theorem ofDocument_named (htold : Told document (detector document)) {name other : String}
    (hname : '\n' ∉ name.toList) (hother : '\n' ∉ other.toList) :
    let report (name : String) := ofDocument document (FileName.ofString name) true detector
    { report name with diff := none } = { report other with diff := none } ∧
      ∃ text text', (report name).diff = some text ∧ (report other).diff = some text' ∧
        (Diff.Patch.behindLabels text = Diff.Patch.behindLabels text' ↔
          (detector document = some .windows1252 →
            Charset.windows1252.accepts (FileName.ofString name) =
                Charset.windows1252.accepts (FileName.ofString other) ∨
              Ascii (Diff.unified document (retab document) []))) := by
  intro report
  refine ⟨rfl, ?_⟩
  by_cases hsame : retab document = document
  · refine ⟨[], [], diff_of_same hsame _, diff_of_same hsame _, iff_of_true rfl fun _ => .inr ?_⟩
    rw [hsame, Diff.unified, if_pos rfl]
    exact fun b hb => absurd hb List.not_mem_nil
  · have hcharset := accepts_changedLines htold hsame
    have hlines {name : String} (hname : '\n' ∉ name.toList) :
        Diff.Patch.behindLabels (Diff.Patch.labelText
            (Charset.display (detector document) (FileName.ofString name)) ++
          shownHunks (detector document) (FileName.ofString name) (changedLines document)) =
        shownHunks (detector document) (FileName.ofString name) (changedLines document) :=
      Diff.Patch.behindLabels_labelText
        (lf_not_mem_display (fun c hc => (hcharset c hc).1) hname) _
    refine ⟨_, _, diff_of_changed htold hsame _, diff_of_changed htold hsame _, ?_⟩
    rw [hlines hname, hlines hother, shownHunks_told_eq_iff htold hsame]

/-- A document that says it is in Windows-1252, and is. -/
def accentedDocument : Bytes :=
  ofAscii "  # coding: cp1252\nname = \"caf" ++ 0xE9 :: ofAscii " cr" ++ 0xE8 :: ofAscii "me\"\n"

/-- Both names can be read in Windows-1252, so the change is shown alike. -/
theorem ofDocument_named_accented :
    let report (name : String) := ofDocument accentedDocument (FileName.ofString name) true
    Told accentedDocument (detect accentedDocument) ∧ '\n' ∉ "a.conf".toList ∧
      '\n' ∉ "\u00E9.conf".toList ∧ detect accentedDocument = some .windows1252 ∧
      ∃ text text', (report "a.conf").diff = some text ∧
        (report "\u00E9.conf").diff = some text' ∧
        Diff.Patch.behindLabels text = Diff.Patch.behindLabels text' := by
  intro report
  have htold : Told accentedDocument (detect accentedDocument) :=
    told_iff.2 rfl
  have hname : '\n' ∉ "a.conf".toList := by
    decide
  have hother : '\n' ∉ "\u00E9.conf".toList := by
    decide
  have hdetect : detect accentedDocument = some .windows1252 := by
    decide +kernel
  have haccepts : Charset.windows1252.accepts (FileName.ofString "a.conf") =
      Charset.windows1252.accepts (FileName.ofString "\u00E9.conf") := by
    decide +kernel
  rcases ofDocument_named htold hname hother with ⟨-, text, text', htext, htext', hiff⟩
  exact ⟨htold, hname, hother, hdetect, text, text', htext, htext', hiff.2 fun _ => .inl haccepts⟩

/-- The letter in the other name cannot be read in Windows-1252. The accents in the document are
    lost with it. -/
theorem exists_named_apart :
    ∃ (document : Bytes) (name other : String), '\n' ∉ name.toList ∧ '\n' ∉ other.toList ∧
      let lines (name : String) :=
        (ofDocument document (FileName.ofString name) true).diff.map Diff.Patch.behindLabels
      lines name = some ("@@ -1,2 +1,2 @@\n-  # coding: cp1252\n+\t# coding: cp1252\n" ++
        " name = \"caf\u00E9 cr\u00E8me\"\n").toList ∧
      lines other = some ("@@ -1,2 +1,2 @@\n-  # coding: cp1252\n+\t# coding: cp1252\n" ++
        " name = \"caf\uFFFD cr\uFFFDme\"\n").toList := by
  refine ⟨accentedDocument, "a.conf", "\u00C1.conf", by decide, by decide, ?_⟩
  decide +kernel

end Report

end ConfIndent
