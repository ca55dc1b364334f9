import ConfIndent.Proofs.Service.Agreement
import ConfIndent.Proofs.Text.Labels

/-!
# Uploads and the Names They Show

The answer to an upload shows the change under the name of the upload, as the charset of the
document has it. So an upload is named rightly in UTF-8 and under a name that is ASCII. Under
another name it is named rightly only if the name is no text in the charset of the document.

## Theorems

* `Service.respond_labels`: When a change is shown under the name of the upload.
-/

namespace ConfIndent.Service

open Bytes Diff.Patch

/-- A change is shown behind two lines of labels that name the upload as the charset of the
    document has it, and the labels hold the name itself in just three cases. -/
theorem respond_labels {framework : Framework} {detector : Detector} {query : Bytes}
    {parts : List Part} {name : String} {content : Bytes} {charset : Charset}
    (hread : framework.read query parts = .ok ⟨name, content, true⟩)
    (haccepts : accepts name = true) (hname : '\n' ∉ name.toList)
    (hchanged : retab content ≠ content) (htold : Told content (detector content))
    (hdetect : detector content = some charset) :
    ∃ report text,
      respond ⟨"POST", "/format", query, parts⟩ framework detector = .formatted report ∧
      report.diff = some text ∧
      labelText (Charset.display charset (FileName.ofString name)) <+: text ∧
      (labelText name.toList <+: text ↔
        charset = .utf8 ∨ Ascii (FileName.ofString name) ∨
          charset.accepts (FileName.ofString name) = false) := by
  have hcharset := accepts_changedLines htold hchanged
  rcases hcharset charset hdetect with ⟨hc, -⟩
  have hshown := Report.diff_of_changed htold hchanged (FileName.ofString name)
  have hline := lf_not_mem_display (fun c hc => (hcharset c hc).1) hname
  rw [hdetect] at hshown hline
  refine ⟨_, _, respond_format hread haccepts detector, hshown, List.prefix_append _ _, ?_⟩
  rw [labelText_isPrefix_iff hname hline, eq_comm]
  exact Charset.display_ofString_iff hc name

/-- A document in UTF-8 under a name with an accent. The change is shown under that name. -/
theorem respond_labels_accented :
    let query := ofAscii "diff=true"
    let content := ofAscii "  caf" ++ [0xC3, 0xA9, lf]
    let parts : List Part := [⟨"file", some "\u00E9.conf", content⟩]
    Framework.standard.read query parts = .ok ⟨"\u00E9.conf", content, true⟩ ∧
      accepts "\u00E9.conf" = true ∧ '\n' ∉ "\u00E9.conf".toList ∧ retab content ≠ content ∧
      Told content (detect content) ∧ detect content = some .utf8 ∧
      ∃ report text, respond ⟨"POST", "/format", query, parts⟩ = .formatted report ∧
        report.diff = some text ∧ labelText "\u00E9.conf".toList <+: text := by
  intro query content parts
  have hread : Framework.standard.read query parts = .ok ⟨"\u00E9.conf", content, true⟩ := by
    decide +kernel
  have haccepts : accepts "\u00E9.conf" = true := by
    decide
  have hname : '\n' ∉ "\u00E9.conf".toList := by
    decide
  have hchanged : retab content ≠ content := by
    decide +kernel
  have hdetect : detect content = some .utf8 := by
    decide +kernel
  have htold : Told content (detect content) :=
    told_iff.2 rfl
  rcases respond_labels hread haccepts hname hchanged htold hdetect with
    ⟨report, text, hreply, htext, -, hiff⟩
  exact ⟨hread, haccepts, hname, hchanged, htold, hdetect, report, text, hreply, htext,
    hiff.2 (.inl rfl)⟩

/-- A document that says it is in Latin-1, under the same name. The labels show two other letters
    in the place of one. -/
theorem exists_named_otherwise :
    ∃ (query : Bytes) (parts : List Part) (name : String) (content : Bytes),
      Framework.standard.read query parts = .ok ⟨name, content, true⟩ ∧ accepts name = true ∧
      '\n' ∉ name.toList ∧ retab content ≠ content ∧ Told content (detect content) ∧
      detect content ≠ none ∧
      ∃ report text, respond ⟨"POST", "/format", query, parts⟩ = .formatted report ∧
        report.diff = some text ∧ labelText "\u00C3\u00A9.conf".toList <+: text ∧
        ¬labelText name.toList <+: text := by
  have hread : Framework.standard.read (ofAscii "diff=true")
      [⟨"file", some "\u00E9.conf", ofAscii "  file.encoding=latin_1\n"⟩] =
        .ok ⟨"\u00E9.conf", ofAscii "  file.encoding=latin_1\n", true⟩ := by
    decide +kernel
  have haccepts : accepts "\u00E9.conf" = true := by
    decide
  refine ⟨_, _, _, _, hread, haccepts, by decide, by decide +kernel, told_iff.2 rfl,
    by decide +kernel, _, _, respond_format hread haccepts detect, rfl, ?_, ?_⟩
  · decide +kernel
  · decide +kernel

end ConfIndent.Service
