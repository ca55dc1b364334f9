import ConfIndent.Proofs.Batch.DryRun
import ConfIndent.Proofs.FileSystem.Resolve

/-!
# Batches of One Document

A batch that is given the name of one file, or the standard input, is one visit. If the
document is ready, nothing stands in the way of what is to be done with it, so the batch
ends and what comes of it is known from the document alone.

The standard input is no file and cannot be written back. Other than that it is a
document like any other, under a name of its own.

## Main definitions

* `batchOf`: The summary of a batch of one document.
* `Ready`: A file can be looked up, read and written, and nothing else fails.

## Theorems

* `ready_of_get?`: A file in the working directory is ready.
* `exists_run_single`: What a batch of one file does.
* `exists_run_input`: What a batch of the standard input does.
* `Ready.exists_run_print`, `Ready.exists_run_write`, `Ready.exists_run_diff`: What is
  printed or written for a file that is ready.
-/

namespace ConfIndent

/-- The summary of a batch of one document that met no error. -/
def batchOf (path : FileName) (changed : Bool) : Summary :=
  ⟨[{ path := path, changed := changed }]⟩

/-- The name leads to a file with the content, which can be looked up, read and written.
    Nothing else fails. -/
structure Ready (faults : Faults) (fs : FileSystem) (name : FileName) (content : Bytes) :
    Prop where
  traceable : faults.untraceable.lookup name = none
  source_eq : fs.source faults name = .ok content
  takes : fs.Takes faults name (faults.format content)
  formatter_eq : faults.formatter = none
  comparison_eq : faults.comparison = none
  outputFull_eq : faults.outputFull = false

namespace FileSystem

/-- A file in the working directory is ready. -/
theorem ready_of_get? {fs : FileSystem} {name : FileName} (hname : IsName name) {content : Bytes}
    (hget : fs.get? (fs.workDir ++ [name]) = some (.file content)) : Ready {} fs name content := by
  have hlocate (purpose : Purpose) : fs.locate purpose name = .ok (.taken (fs.workDir ++ [name])) :=
    locate_of_get? hname hget purpose
  refine ⟨rfl, ?_, ⟨⟨List.not_mem_nil, ?_⟩, rfl⟩, rfl, rfl, rfl⟩
  · have hopens : fs.Opens {} name (fs.workDir ++ [name]) :=
      ⟨List.not_mem_nil, List.not_mem_nil, hname.null_not_mem, hlocate .read⟩
    exact source_eq_of_opens hopens hget
  · rw [hlocate .create]
    rfl

/-- A file is not taken for a directory to be walked. -/
theorem planName_of_source {fs : FileSystem} {faults : Faults} {name : FileName} {content : Bytes}
    (htidy : name.tidy = name) (htraceable : faults.untraceable.lookup name = none)
    (hsource : fs.source faults name = .ok content) (suffix : Suffix) :
    fs.planName faults suffix name = [.file name] := by
  rcases read_of_source hsource with ⟨-, -, hnull, hread⟩
  rcases exists_of_read hread with ⟨l, hlocate, hget⟩
  have hprobe : faults.probe fs name = .ok (some (.file content)) := by
    simp only [Faults.probe, Faults.stat_of_traceable htraceable, stat, hlocate, Except.bind,
      entryAt, hget]
  have hdirectory : fs.isDirectory faults name = .ok false := by
    rw [isDirectory, leadsTo, if_neg hnull, hprobe]
    rfl
  rw [planName, htidy, hdirectory]

end FileSystem

section Runs

variable {faults : Faults} {options : Options} {name : FileName} {content : Bytes} {w : World}

/-- With nothing else to fail, a document that can be taken in full does not fail. -/
theorem not_fails_of_takes (hcomparison : faults.comparison = none)
    (hfull : faults.outputFull = false) {fs : FileSystem}
    (hwrite : options.write = true → fs.Takes faults name (faults.format content)) :
    ¬fs.Fails faults options name content := by
  have hchange : ¬fs.ChangeFails faults options name (faults.format content) := by
    rintro (⟨-, h⟩ | ⟨h, hnot⟩ | ⟨-, h | h⟩)
    · rw [hfull] at h
      exact Bool.false_ne_true h
    · exact hnot (hwrite h)
    · exact h hcomparison
    · rw [hfull] at h
      exact Bool.false_ne_true h
  rintro (⟨-, h⟩ | ⟨-, -, h⟩)
  · exact hchange h
  · rw [hfull] at h
    exact Bool.false_ne_true h

/-- What a batch of one file does, if no error is met. -/
theorem exists_run_single (htidy : name.tidy = name)
    (htraceable : faults.untraceable.lookup name = none)
    (hsource : w.files.source faults name = .ok content)
    (hfails : ¬w.files.Fails faults options name content) (suffix : Suffix) (input : Input) :
    ∃ w', run faults options suffix [name] input w =
        .ok (batchOf name (decide (content ≠ faults.format content))) w' ∧
      w'.files = w.files.settled faults options name ∧
      w'.output = w.output ++ w.files.printed faults options name := by
  rcases processOne_of_not_fails hsource hfails with ⟨w', hone, hfiles, houtput⟩
  refine ⟨w', ?_, hfiles, houtput⟩
  rw [FileSystem.outcome, hsource] at hone
  have hact : Visit.act (fun path => processOne faults options path none) unlistable
      (.file name) w = .ok { path := name, changed := content ≠ faults.format content } w' := hone
  have hplan : w.files.planNames faults suffix [name] = [.file name] := by
    rw [FileSystem.planNames, List.flatMap_singleton,
      FileSystem.planName_of_source htidy htraceable hsource]
  rw [run_eq_ok_iff (List.cons_ne_nil _ _), hplan, List.mapM_cons, Action.bind_of_ok hact]
  rfl

/-- What a batch of the standard input does, if no error is met. -/
theorem exists_run_input (hwrite : options.write = false)
    (hfails : ¬w.files.Fails faults options standardInput content) (suffix : Suffix) :
    ∃ w', run faults options suffix [] (.bytes content) w =
        .ok (batchOf standardInput (decide (content ≠ faults.format content))) w' ∧
      w'.output = w.output ++ FileSystem.printedDocument faults options standardInput content := by
  have hread : options.write → w.files.read standardInput = .ok content ∧ 0 ∉ standardInput := by
    rw [hwrite]
    exact fun h => absurd h Bool.false_ne_true
  have hsource : Action.readSource faults standardInput (some (.bytes content)) w =
      .ok content w := rfl
  rcases (effect_processFile faults options hsource hread).ok hfails with
    ⟨w', hfile, -, houtput⟩
  refine ⟨w', ?_, houtput⟩
  have hone : processOne faults options standardInput (some (.bytes content)) w =
      .ok { path := standardInput, changed := content ≠ faults.format content } w' := by
    rw [processOne, hfile]
    rfl
  have hbatch : runInput faults options (.bytes content) w =
      .ok [{ path := standardInput, changed := content ≠ faults.format content }] w' := by
    rw [runInput, hwrite, if_neg Bool.false_ne_true, Action.bind_of_ok hone]
    rfl
  rw [run, Action.bind_of_ok hbatch]
  rfl

/-- With nothing else to be done, the document is printed as it is formatted. -/
theorem printedDocument_default (hformatter : faults.formatter = none) :
    FileSystem.printedDocument faults {} name content = retab content := by
  have hquiet : FileSystem.printedChange {} name content (faults.format content) = [] := rfl
  have hprints : Options.printsResult {} = true := rfl
  rw [FileSystem.printedDocument, hquiet, ite_self, if_pos ⟨hprints, hformatter⟩,
    Faults.format_of_formatter hformatter]
  rfl

/-- What is in a file after it was written. -/
theorem read_settled {options : Options} (hsource : w.files.source faults name = .ok content)
    (hstores : w.files.Stores faults options name)
    (hfits : faults.fitting w.files name (faults.format content) = faults.format content) :
    (w.files.settled faults options name).read name = .ok (faults.format content) := by
  rcases FileSystem.opens_of_source hsource with ⟨l, hopens, hget⟩
  have hopens' := (FileSystem.opens_congr (FileSystem.shape_rewritten w.files faults name) faults
    name l).2 hopens
  rw [FileSystem.settled, if_pos hstores, FileSystem.stored_eq_rewritten hsource hfits]
  exact FileSystem.read_eq_of_locate hopens'.2.2.2 (FileSystem.get?_rewritten_of_opens hopens hget)

section Ready

variable (hready : Ready faults w.files name content) (suffix : Suffix) (input : Input)

include hready

/-- A batch of one file that is ready settles it and prints what there is to be printed. -/
theorem Ready.exists_run (htidy : name.tidy = name) (options : Options) :
    ∃ w', run faults options suffix [name] input w =
        .ok (batchOf name (decide (content ≠ retab content))) w' ∧
      w'.files = w.files.settled faults options name ∧
      w'.output = w.output ++ w.files.printed faults options name := by
  have hfails : ¬w.files.Fails faults options name content :=
    not_fails_of_takes hready.comparison_eq hready.outputFull_eq fun _ => hready.takes
  rcases exists_run_single htidy hready.traceable hready.source_eq hfails suffix input with
    ⟨w', hrun, hfiles, houtput⟩
  rw [Faults.format_of_formatter hready.formatter_eq] at hrun
  exact ⟨w', hrun, hfiles, houtput⟩

/-- A batch prints the formatted file. -/
theorem Ready.exists_run_print (htidy : name.tidy = name) :
    ∃ w', run faults {} suffix [name] input w =
        .ok (batchOf name (decide (content ≠ retab content))) w' ∧
      w'.output = w.output ++ retab content := by
  rcases hready.exists_run suffix input htidy {} with ⟨w', hrun, -, houtput⟩
  rw [FileSystem.printed_of_source {} hready.source_eq,
    printedDocument_default hready.formatter_eq] at houtput
  exact ⟨w', hrun, houtput⟩

/-- A batch that writes leaves the formatted document in the file. -/
theorem Ready.exists_run_write (htidy : name.tidy = name) :
    ∃ w', run faults { write := true } suffix [name] input w =
        .ok (batchOf name (decide (content ≠ retab content))) w' ∧
      w'.files.read name = .ok (retab content) := by
  rcases hready.exists_run suffix input htidy { write := true } with ⟨w', hrun, hfiles, -⟩
  have hstores : w.files.Stores faults { write := true } name :=
    ⟨rfl, fun h => Bool.false_ne_true h.1, hready.takes.1⟩
  refine ⟨w', hrun, ?_⟩
  rw [hfiles, read_settled hready.source_eq hstores hready.takes.2,
    Faults.format_of_formatter hready.formatter_eq]

/-- A batch that shows changes prints the patch of the file behind the line that
    announces it, or nothing. -/
theorem Ready.exists_run_diff (htidy : name.tidy = name) :
    ∃ w' text, run faults { diff := true } suffix [name] input w =
        .ok (batchOf name (decide (content ≠ retab content))) w' ∧
      w'.output = w.output ++ text ∧ (text ≠ [] → patchHeader name <+: text) ∧
      text.drop (patchHeader name).length = Diff.unified content (retab content) name ∧
      (text = [] ↔ content = retab content) := by
  rcases hready.exists_run suffix input htidy { diff := true } with ⟨w', hrun, -, houtput⟩
  have htext : w.files.printed faults { diff := true } name =
      if content = retab content then []
      else patchHeader name ++ Diff.unified content (retab content) name := by
    rw [FileSystem.printed_diff, patchOf, (FileSystem.read_of_source hready.source_eq).2.2.2]
    simp only [FileSystem.outcome, hready.source_eq, decide_eq_true_eq,
      Faults.format_of_formatter hready.formatter_eq, ite_not, ne_eq]
  refine ⟨w', _, hrun, houtput, ?_⟩
  rw [htext]
  by_cases hsame : content = retab content
  · rw [if_pos hsame, List.drop_nil, Diff.unified, if_pos hsame]
    exact ⟨fun h => absurd rfl h, rfl, iff_of_true rfl hsame⟩
  · rw [if_neg hsame, List.drop_left]
    refine ⟨fun _ => List.prefix_append _ _, rfl, iff_of_false ?_ hsame⟩
    exact List.append_ne_nil_of_left_ne_nil (List.cons_ne_nil _ _) _

end Ready

end Runs

end ConfIndent
