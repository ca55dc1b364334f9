import ConfIndent.Proofs.Diff.Retab
import ConfIndent.Proofs.Digest.Base64
import ConfIndent.Proofs.Text.Display

/-!
# What a Report Tells

A report is put together from several looks at one document: it is formatted, its margin is
measured, its charset is told, and the change is shown. Nothing in it is worked out from
anything else in it. Yet whoever is handed a report and the document can put the formatted
document together from the two numbers, and finds it to be the one in the report.

Whether there is a change to be seen does not hang on the charset. A patch that is not empty
starts with hyphens, and no charset shows these as nothing. So it makes no difference here
which charset a document is taken for.

## Theorems

* `display_unified_eq_nil_iff`: When a patch is shown as nothing.
* `Opening.tabs_eq`: What a margin is worth.
* `Report.changed_iff`: When a report tells of a change.
* `Report.describes_formatted`: The parts of a report are about one formatted document.
-/

namespace ConfIndent

open Bytes

/-- A patch is shown as nothing if nothing changed, and only then. -/
theorem display_unified_eq_nil_iff (charset : Option Charset) (old new name : Bytes) :
    Charset.display charset (Diff.unified old new name) = [] ↔ old = new := by
  rw [Diff.unified]
  by_cases hsame : old = new
  · rw [if_pos hsame, Charset.display_nil]
    exact iff_of_true rfl hsame
  · -- A patch starts with the hyphens of its first label.
    rw [if_neg hsame]
    exact iff_of_false (Charset.display_ne_nil charset _) hsame

namespace Opening

/-- A margin is worth the tabs it holds, or one tab if it holds spaces only, or nothing. -/
theorem tabs_eq (o : Opening) :
    o.tabs = if o.margin.count tab ≠ 0 then o.margin.count tab
      else if space ∈ o.margin then 1 else 0 := by
  rw [tabs, ite_not]

-- The leading run is cut behind its last line feed.
theorem takeWhile_eq (source : Bytes) :
    source.takeWhile isBlank = (ofDocument source).blankLines ++ (ofDocument source).margin :=
  (throughLastLine_append_afterLastLine _).symm

end Opening

namespace Report

/-- A report tells of a change if the formatted document is another. -/
theorem changed_iff (document name : Bytes) (withDiff : Bool) (detector : Detector) :
    (ofDocument document name withDiff detector).changed = true ↔ retab document ≠ document :=
  bne_iff_ne

theorem changed_eq_false_iff (document name : Bytes) (withDiff : Bool) (detector : Detector) :
    (ofDocument document name withDiff detector).changed = false ↔ document = retab document := by
  rw [← Bool.not_eq_true, changed_iff, ne_eq, Decidable.not_not, eq_comm]

/-- The parts of a report are about one formatted document. It is made up of what the document
    has up to the last line feed of its leading run, of tabs, and of what follows the run. A
    change is shown if it was asked for, and it is shown as nothing if there is none, whatever
    charset the document is taken for. -/
theorem describes_formatted (document name : Bytes) (withDiff : Bool) (detector : Detector) :
    let report := ofDocument document name withDiff detector
    ∃ formatted, Base64.decode? report.content = some formatted ∧
      formatted = document.take report.leadingBlank ++ List.replicate report.tabs tab ++
        document.dropWhile isBlank ∧
      (∃ margin, document.takeWhile isBlank = document.take report.leadingBlank ++ margin ∧
        Lines.Ended (document.take report.leadingBlank) ∧ lf ∉ margin ∧
        report.tabs = if margin.count tab ≠ 0 then margin.count tab
          else if space ∈ margin then 1 else 0) ∧
      (report.changed = true ↔ formatted ≠ document) ∧
      report.digest = Sha256.hexDigest formatted ∧
      (report.diff = none ↔ withDiff = false) ∧
      (report.diff = some [] ↔ withDiff = true ∧ report.changed = false) ∧
      ∀ charset, Charset.display charset (Diff.unified document formatted name) = [] ↔
        report.changed = false := by
  intro report
  have hproper := Opening.proper_ofDocument document
  have htake : document.take report.leadingBlank = (Opening.ofDocument document).blankLines :=
    Opening.take_lineStart document
  have hshown (charset : Option Charset) :
      Charset.display charset (Diff.unified document (retab document) name) = [] ↔
        report.changed = false := by
    rw [display_unified_eq_nil_iff, changed_eq_false_iff]
  refine ⟨retab document, Base64.decode?_encode _, ?_, ?_, changed_iff _ _ _ _, rfl, ?_, ?_, hshown⟩
  · rw [htake]
    exact retab_eq document
  · rw [htake]
    exact ⟨(Opening.ofDocument document).margin, Opening.takeWhile_eq document,
      hproper.ended_blankLines, hproper.lf_not_mem, Opening.tabs_eq _⟩
  · cases withDiff with
    | false => exact iff_of_true rfl rfl
    | true => exact iff_of_false nofun nofun
  · cases withDiff with
    | false => exact iff_of_false nofun fun h => nomatch h.1
    | true =>
      have hdiff : report.diff =
          some (Charset.display (detector document)
            (Diff.unified document (retab document) name)) :=
        rfl
      rw [hdiff, Option.some_inj, hshown, and_iff_right rfl]

end Report

end ConfIndent
