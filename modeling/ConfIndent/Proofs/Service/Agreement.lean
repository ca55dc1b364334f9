import ConfIndent.Proofs.Batch.Single
import ConfIndent.Proofs.Report
import ConfIndent.Proofs.Service.Gate

/-!
# The Service and the Batch

A document comes to the same whether it is handed to the service or to a batch. What a
reply holds in Base64 is what a batch prints, for a file and for the standard input
alike, and what is in the file after a batch that writes. The change that the reply shows
is the patch that a batch shows, as text, without the line that announces it.

The service never looks at a file system. What it and the batch have in common is the
document and the name, so on either side what comes of them is worked out on its own and
then compared. A name that the service accepts and that holds no solidus is tidy, and
leads to a file if it leads to a document at all.

## Theorems

* `isComponent_of_accepts`: A name that is accepted and has no solidus is a component.
* `respond_agrees`: The service and the batch do the same to a document.
-/

namespace ConfIndent

open Bytes

namespace Service

-- An accepted name is longer than the current directory's.
theorem isComponent_of_accepts {name : String} (haccepts : accepts name = true)
    (hslash : '/' ∉ name.toList) : FileName.IsComponent (FileName.ofString name) := by
  have hlength : 5 ≤ (FileName.ofString name).length := by
    have hending := (Bool.and_eq_true_iff.1 haccepts).2
    have hletters := (List.isSuffixOf_iff_suffix.1 hending).length_le
    rw [List.length_map] at hletters
    exact Nat.le_trans hletters (Utf8.length_le_length_encode _)
  refine ⟨?_, ?_, ?_⟩
  · intro hnil
    rw [hnil] at hlength
    exact absurd hlength (by decide)
  · exact Utf8.not_mem_encode (by decide) hslash
  · intro hdot
    rw [hdot] at hlength
    exact absurd hlength (by decide)

/-- A request that is read and names a file to format is answered by the report on it. -/
theorem respond_format {framework : Framework} {query : Bytes} {parts : List Part}
    {withDiff : Bool} {name : String} {content : Bytes}
    (hread : framework.read query parts = .ok ⟨name, content, withDiff⟩)
    (haccepts : accepts name = true) (detector : Detector) :
    respond ⟨"POST", "/format", query, parts⟩ framework detector =
      .formatted (Report.ofDocument content (FileName.ofString name) withDiff detector) := by
  have hpath : leadsTo "/format" "/format" = true := by
    decide
  rw [respond_eq_answer rfl hpath, answer, hread]
  simp only [format, haccepts, if_true]

end Service

/-- The service and the batch do the same to a document, whether it is the standard input
    or a file. -/
theorem respond_agrees {framework : Service.Framework} {query : Bytes}
    {parts : List Service.Part} {withDiff : Bool} {name : String} {content : Bytes}
    (hread : framework.read query parts = .ok ⟨name, content, withDiff⟩)
    (haccepts : Service.accepts name = true) (hslash : '/' ∉ name.toList) (detector : Detector)
    {faults : Faults} {w : World}
    (hready : Ready faults w.files (FileName.ofString name) content) (suffix : Suffix)
    (input : Input) :
    let file := FileName.ofString name
    ∃ report bytes,
      Service.respond ⟨"POST", "/format", query, parts⟩ framework detector = .formatted report ∧
      Base64.decode? report.content = some bytes ∧ report.digest = Sha256.hexDigest bytes ∧
      (∃ w', run faults {} suffix [file] input w = .ok (batchOf file report.changed) w' ∧
        w'.output = w.output ++ bytes) ∧
      (∃ w', run faults {} suffix [] (.bytes content) w =
          .ok (batchOf standardInput report.changed) w' ∧
        w'.output = w.output ++ bytes) ∧
      (∃ w', run faults { write := true } suffix [file] input w =
          .ok (batchOf file report.changed) w' ∧
        w'.files.read file = .ok bytes) ∧
      ∃ w' text, run faults { diff := true } suffix [file] input w =
          .ok (batchOf file report.changed) w' ∧
        w'.output = w.output ++ text ∧ (text ≠ [] → patchHeader file <+: text) ∧
        (withDiff = true → ∃ shown, report.diff = some shown ∧
          displayNamed (text.drop (patchHeader file).length)
            (report.charset.map Charset.name) = .ok shown ∧
          (shown = [] ↔ text = [])) := by
  intro file
  have htidy : file.tidy = file :=
    FileName.tidy_of_isComponent (Service.isComponent_of_accepts haccepts hslash)
  have hchanged : (Report.ofDocument content file withDiff detector).changed =
      decide (content ≠ retab content) := by
    rw [Bool.eq_iff_iff, decide_eq_true_iff, ne_comm]
    exact bne_iff_ne
  refine ⟨Report.ofDocument content file withDiff detector, retab content,
    Service.respond_format hread haccepts detector, Base64.decode?_encode _, rfl, ?_⟩
  rw [hchanged]
  refine ⟨hready.exists_run_print suffix input htidy, ?_,
    hready.exists_run_write suffix input htidy, ?_⟩
  · have hfails : ¬w.files.Fails faults {} standardInput content :=
      not_fails_of_takes hready.comparison_eq hready.outputFull_eq fun h =>
        absurd h Bool.false_ne_true
    rcases exists_run_input rfl hfails suffix with ⟨w', hrun, houtput⟩
    rw [Faults.format_of_formatter hready.formatter_eq] at hrun
    rw [printedDocument_default hready.formatter_eq] at houtput
    exact ⟨w', hrun, houtput⟩
  · rcases hready.exists_run_diff suffix input htidy with
      ⟨w', text, hrun, houtput, hheader, hbody, htext⟩
    refine ⟨w', text, hrun, houtput, hheader, ?_⟩
    rintro rfl
    refine ⟨_, rfl, ?_, ?_⟩
    · rw [hbody]
      exact displayNamed_name _ _
    · rw [htext]
      exact display_unified_eq_nil_iff _ _ _ _

/-- A file that is indented by spaces, in the working directory. -/
def indentedFile : World where
  files := {
    entries := [([ofAscii "x.conf"], .file (ofAscii "  a\n"))]
    workDir := [] }

/-- The same document as an upload, with the change asked for. -/
theorem respond_agrees_indented :
    let query := ofAscii "diff=true"
    let parts : List Service.Part := [⟨"file", some "x.conf", ofAscii "  a\n"⟩]
    let file := FileName.ofString "x.conf"
    Service.Framework.standard.read query parts = .ok ⟨"x.conf", ofAscii "  a\n", true⟩ ∧
      Service.accepts "x.conf" = true ∧ '/' ∉ "x.conf".toList ∧
      Ready {} indentedFile.files file (ofAscii "  a\n") ∧
      ∃ report bytes, Service.respond ⟨"POST", "/format", query, parts⟩ = .formatted report ∧
        Base64.decode? report.content = some bytes ∧ report.digest = Sha256.hexDigest bytes ∧
        (∃ w', run {} {} none [file] .broken indentedFile = .ok (batchOf file report.changed) w' ∧
          w'.output = bytes) ∧
        (∃ w', run {} {} none [] (.bytes (ofAscii "  a\n")) indentedFile =
            .ok (batchOf standardInput report.changed) w' ∧
          w'.output = bytes) ∧
        (∃ w', run {} { write := true } none [file] .broken indentedFile =
            .ok (batchOf file report.changed) w' ∧
          w'.files.read file = .ok bytes) ∧
        ∃ w' text, run {} { diff := true } none [file] .broken indentedFile =
            .ok (batchOf file report.changed) w' ∧
          w'.output = text ∧ (text ≠ [] → patchHeader file <+: text) ∧
          ∃ shown, report.diff = some shown ∧
            displayNamed (text.drop (patchHeader file).length)
              (report.charset.map Charset.name) = .ok shown ∧
            (shown = [] ↔ text = []) := by
  intro query parts file
  have hread : Service.Framework.standard.read query parts =
      .ok ⟨"x.conf", ofAscii "  a\n", true⟩ := by
    decide +kernel
  have haccepts : Service.accepts "x.conf" = true := by
    decide
  have hslash : '/' ∉ "x.conf".toList := by
    decide
  have hname : FileSystem.IsName file := by
    decide
  have hready : Ready {} indentedFile.files file (ofAscii "  a\n") :=
    FileSystem.ready_of_get? hname (by decide)
  refine ⟨hread, haccepts, hslash, hready, ?_⟩
  rcases respond_agrees hread haccepts hslash detect hready none .broken with
    ⟨report, bytes, hreply, hcontent, hdigest, hprint, hinput, hwrite, w', text, hrun, houtput,
      hheader, hshown⟩
  exact ⟨report, bytes, hreply, hcontent, hdigest, hprint, hinput, hwrite, w', text, hrun, houtput,
    hheader, hshown rfl⟩

end ConfIndent
