import ConfIndent.Proofs.Batch.WriteBack
import ConfIndent.Proofs.Diff.Reading

/-!
# Dry Runs

A batch can tell what it would do without doing it: list the files it would
change, or show the changes. What it tells is what the batch does when it writes
back. The list names the files that are written, and a patch that is shown makes
of the old content what stands in the file afterwards.

All modes follow one plan, since the plan depends on the shape of the files and
no mode changes that. A mode that does not write sees every file as it is at the
beginning. The one that writes may come to a file again that it has written, but
then it finds it formatted, so what it leaves in the file is what formatting makes
of the content at the beginning.

## Main definitions

* `Completes`: A batch ends and meets no error.
* `patchOf`: What is shown for a changed file.

## Theorems

* `Visited.output_list`, `Visited.output_diff`: What the modes print, told by their
  outcomes.
* `dryRun_agrees`: What a dry run tells is what the real one does.
-/

namespace ConfIndent

open Bytes

/-- The batch ends and meets no error. -/
structure Completes (faults : Faults) (options : Options) (suffix : Suffix)
    (names : List FileName) (input : Input) (w : World) (s : Summary) (w' : World) : Prop where
  run_eq : run faults options suffix names input w = .ok s w'
  errorCount_eq : s.errorCount = 0

/-- What is shown for a changed file. -/
def patchOf (fs : FileSystem) (path : FileName) : Bytes :=
  match fs.read path with
  | .ok old => patchHeader path ++ Diff.unified old (retab old) path
  | .error _ => []

/-- A formatter that changes a document does what the formatter here does. -/
theorem Faults.format_eq_retab {faults : Faults} {content : Bytes}
    (h : content ≠ faults.format content) : faults.format content = retab content := by
  unfold Faults.format at h ⊢
  cases hformatter : faults.formatter with
  | none => rfl
  | some reason =>
    rw [hformatter] at h
    exact absurd rfl h

theorem oneLine_patchHeader {name : FileName} (hname : lf ∉ name) :
    Diff.Patch.OneLine (patchHeader name) := by
  refine ⟨ofAscii "diff " ++ name ++ ofAscii " hoconfmt/" ++ name, ?_, rfl⟩
  simp only [List.mem_append, hname, or_false, not_or]
  decide

namespace FileSystem

@[simp] theorem outcome_path (fs : FileSystem) (faults : Faults) (path : FileName) :
    (fs.outcome faults path).path = path := by
  unfold outcome
  cases fs.source faults path <;> rfl

/-- A file is recorded as changed if it can be read and formatting changes it. -/
theorem changed_iff (fs : FileSystem) (faults : Faults) (path : FileName) :
    (fs.outcome faults path).changed ↔
      ∃ old, fs.source faults path = .ok old ∧ old ≠ faults.format old := by
  unfold outcome
  rcases fs.source faults path with e | content
  · refine iff_of_false Bool.false_ne_true ?_
    rintro ⟨old, h, -⟩
    exact absurd h (by simp only [reduceCtorEq, not_false_eq_true])
  · simp only [decide_eq_true_eq, Except.ok.injEq, exists_eq_left']

/-- With the list asked for, a changed file prints its name. -/
theorem printed_list (fs : FileSystem) (faults : Faults) (path : FileName) :
    fs.printed faults { list := true } path =
      if (fs.outcome faults path).changed then path ++ [lf] else [] := by
  unfold printed outcome
  rcases fs.source faults path with e | content
  · rfl
  · simp only [printedChange, Options.printsResult, decide_eq_true_eq, Bool.true_or, Bool.not_true,
      Bool.false_eq_true, false_and, if_false, if_true, List.append_nil]

/-- With the change asked for, a changed file prints its patch. -/
theorem printed_diff (fs : FileSystem) (faults : Faults) (path : FileName) :
    fs.printed faults { diff := true } path =
      if (fs.outcome faults path).changed then patchOf fs path else [] := by
  unfold printed outcome
  rcases hsource : fs.source faults path with e | content
  · rfl
  · -- The patch is shown from the content read here.
    simp only [printedChange, Options.printsResult, decide_eq_true_eq, Bool.or_true, Bool.not_true,
      Bool.false_eq_true, false_and, if_false, if_true, List.append_nil, List.nil_append, patchOf,
      (read_of_source hsource).2.2.2]
    by_cases hchanged : content = faults.format content
    · rw [if_neg (not_not_intro hchanged), if_neg (not_not_intro hchanged)]
    · rw [if_pos hchanged, if_pos hchanged, Faults.format_eq_retab hchanged]

end FileSystem

/-- What is printed for the changed files only. -/
theorem flatMap_filter_changed (outcome : FileName → Outcome) (hpath : ∀ p, (outcome p).path = p)
    (text : FileName → Bytes) (paths : List FileName) :
    ((paths.map outcome).filter Outcome.changed).flatMap (fun o => text o.path) =
      paths.flatMap fun p => if (outcome p).changed then text p else [] := by
  induction paths with
  | nil => rfl
  | cons path paths ih =>
    rw [List.map_cons, List.flatMap_cons]
    by_cases hchanged : (outcome path).changed
    · rw [List.filter_cons_of_pos hchanged, List.flatMap_cons, ih, hpath, if_pos hchanged]
    · rw [List.filter_cons_of_neg hchanged, ih, if_neg hchanged, List.nil_append]

section Modes

variable {faults : Faults} {paths : List FileName} {w w' : World} {outcomes : List Outcome}

/-- The list names the changed files, in the order of the visits. -/
theorem Visited.output_list (h : Visited faults { list := true } paths w outcomes w') :
    w'.output = w.output ++
      (outcomes.filter Outcome.changed).flatMap fun o => o.path ++ [lf] := by
  rw [h.output_eq rfl, h.outcomes_eq rfl,
    flatMap_filter_changed _ (w.files.outcome_path faults) (· ++ [lf])]
  congr 2
  funext path
  exact w.files.printed_list faults path

/-- The changes shown are those of the changed files, in the order of the visits. -/
theorem Visited.output_diff (h : Visited faults { diff := true } paths w outcomes w') :
    w'.output = w.output ++
      (outcomes.filter Outcome.changed).flatMap fun o => patchOf w.files o.path := by
  rw [h.output_eq rfl, h.outcomes_eq rfl,
    flatMap_filter_changed _ (w.files.outcome_path faults) (patchOf w.files)]
  congr 2
  funext path
  exact w.files.printed_diff faults path

/-- A mode that does not write leaves the files alone, and its outcomes are those of
    the files as they are at the beginning. -/
theorem Visited.of_not_write {options : Options} (hoptions : options.write = false)
    (h : Visited faults options paths w outcomes w') :
    w'.files = w.files ∧ outcomes = paths.map (w.files.outcome faults) := by
  have hfiles := h.files
  rw [hoptions, if_neg Bool.false_ne_true] at hfiles
  exact ⟨hfiles, h.outcomes_eq hoptions⟩

/-- A file that is recorded as changed has been formatted when it is read after the
    visits that write. -/
theorem Visited.read_of_changed {options : Options} (hoptions : options.write = true)
    (h : Visited faults options paths w outcomes w') {path : FileName} (hpath : path ∈ paths)
    (hchanged : (w.files.outcome faults path).changed) :
    ∃ old, w.files.read path = .ok old ∧ w'.files.read path = .ok (retab old) := by
  rcases (w.files.changed_iff faults path).1 hchanged with ⟨old, hsource, hne⟩
  rcases FileSystem.opens_of_source hsource with ⟨l, hopens, hget⟩
  refine ⟨old, FileSystem.read_eq_of_locate hopens.2.2.2 hget, ?_⟩
  have hfiles := h.files
  rw [if_pos hoptions] at hfiles
  -- The visits keep the shape, so the path leads where it led before.
  have hlocate : w'.files.locate .read path = .ok (.taken l) := by
    rw [hfiles, ← FileSystem.locate_shape, FileSystem.shape_foldl_rewritten,
      FileSystem.locate_shape, hopens.2.2.2]
  refine FileSystem.read_eq_of_locate hlocate ?_
  rw [hfiles, FileSystem.get?_foldl_of_opens hget ⟨path, hpath, hopens⟩,
    Faults.format_eq_retab hne]

/-- The visits that write change those files that some path leads to whose outcome
    is that it was changed. -/
theorem Visited.get?_ne_iff {options : Options} (hoptions : options.write = true)
    (h : Visited faults options paths w outcomes w') {l : Location} {content : Bytes}
    (hget : w.files.get? l = some (.file content)) :
    w'.files.get? l ≠ some (.file content) ↔
      ∃ path ∈ paths, (w.files.outcome faults path).changed ∧
        w.files.locate .read path = .ok (.taken l) := by
  have hfiles := h.files
  rw [if_pos hoptions] at hfiles
  rw [hfiles]
  constructor
  · intro hne
    by_cases hopened : ∃ path ∈ paths, w.files.Opens faults path l
    · rw [FileSystem.get?_foldl_of_opens hget hopened] at hne
      rcases hopened with ⟨path, hpath, hopens⟩
      refine ⟨path, hpath, (w.files.changed_iff faults path).2 ⟨content, ?_, ?_⟩, hopens.2.2.2⟩
      · exact FileSystem.source_eq_of_opens hopens hget
      · intro heq
        rw [← heq] at hne
        exact hne rfl
    · -- A file that no visit opens is not changed.
      rw [FileSystem.get?_foldl_of_not_opens, hget] at hne
      · exact absurd rfl hne
      · intro path hpath hopens
        exact hopened ⟨path, hpath, hopens⟩
  · rintro ⟨path, hpath, hchanged, hlocate⟩
    rcases (w.files.changed_iff faults path).1 hchanged with ⟨old, hsource, hne⟩
    rcases FileSystem.opens_of_source hsource with ⟨k, hopens, hold⟩
    -- The path leads to one file, which is the one in question.
    have hk : k = l := by
      have hsame := hopens.2.2.2
      rw [hlocate, Except.ok.injEq, Spot.taken.injEq] at hsame
      exact hsame.symm
    subst hk
    rw [hget, Option.some_inj, Entry.file.injEq] at hold
    rw [FileSystem.get?_foldl_of_opens hget ⟨path, hpath, hopens⟩, hold]
    intro heq
    rw [Option.some_inj, Entry.file.injEq] at heq
    exact hne heq.symm

end Modes

/-- What the modes have to do with each other. The worlds are those before and after
    a batch that lists, shows patches, does both, prints, and writes back. -/
structure Agreement (w wl wd wb wp ww : World) (listed shown both printed : Summary) : Prop where
  /-- Modes that do not write leave the files alone. -/
  files : wl.files = w.files ∧ wd.files = w.files ∧ wb.files = w.files ∧ wp.files = w.files
  /-- They tell the same outcomes. -/
  outcomes : shown.outcomes = listed.outcomes ∧ both.outcomes = listed.outcomes ∧
    printed.outcomes = listed.outcomes
  /-- What is listed are the names of the changed files. -/
  output_list : wl.output = w.output ++
    (listed.outcomes.filter Outcome.changed).flatMap fun o => o.path ++ [lf]
  /-- What is shown are the patches of the changed files. -/
  output_diff : wd.output = w.output ++
    (shown.outcomes.filter Outcome.changed).flatMap fun o => patchOf w.files o.path
  /-- A patch makes of the old content what writing back leaves in the file. -/
  patches : ∀ o ∈ shown.outcomes, o.changed → ∃ old new, w.files.read o.path = .ok old ∧
    ww.files.read o.path = .ok new ∧ new = retab old ∧
    (lf ∉ o.path →
      Diff.Patch.apply (Diff.Patch.labelLines + 1) (patchOf w.files o.path) old = some new)
  /-- The files written with new content are those that a listed path leads to. -/
  written : ∀ l content, w.files.get? l = some (.file content) →
    (ww.files.get? l ≠ some (.file content) ↔
      ∃ o ∈ listed.outcomes, o.changed ∧ w.files.locate .read o.path = .ok (.taken l))

/-- What a dry run tells is what the real one does. -/
theorem dryRun_agrees {faults : Faults} {suffix : Suffix} {names : List FileName}
    (hnames : names ≠ []) {input : Input} {w wl wd wb wp ww : World}
    {listed shown both printed written : Summary}
    (hlist : Completes faults { list := true } suffix names input w listed wl)
    (hdiff : Completes faults { diff := true } suffix names input w shown wd)
    (hboth : Completes faults { list := true, diff := true } suffix names input w both wb)
    (hprint : Completes faults {} suffix names input w printed wp)
    (hwrite : Completes faults { write := true } suffix names input w written ww) :
    Agreement w wl wd wb wp ww listed shown both printed := by
  rcases exists_paths_of_run hnames hlist.run_eq hlist.errorCount_eq with ⟨paths, hplan, hl⟩
  -- All modes visit the same paths.
  have hvisited {options : Options} {s : Summary} {w' : World}
      (h : Completes faults options suffix names input w s w') :
      Visited faults options paths w s.outcomes w' := by
    rcases exists_paths_of_run hnames h.run_eq h.errorCount_eq with ⟨paths', hplan', h'⟩
    rw [hplan] at hplan'
    rw [(List.map_inj_right fun _ _ heq => Visit.file.inj heq).1 hplan']
    exact h'
  have hd := hvisited hdiff
  have hw := hvisited hwrite
  rcases hl.of_not_write rfl with ⟨hwl, hlisted⟩
  rcases hd.of_not_write rfl with ⟨hwd, hshown⟩
  rcases (hvisited hboth).of_not_write rfl with ⟨hwb, hshownToo⟩
  rcases (hvisited hprint).of_not_write rfl with ⟨hwp, hprinted⟩
  refine ⟨⟨hwl, hwd, hwb, hwp⟩, ?_, hl.output_list, hd.output_diff, ?_, ?_⟩
  · rw [hlisted, hshown, hshownToo, hprinted]
    exact ⟨rfl, rfl, rfl⟩
  · intro o ho hchanged
    rw [hshown] at ho
    rcases List.mem_map.1 ho with ⟨path, hpath, rfl⟩
    rcases hw.read_of_changed rfl hpath hchanged with ⟨old, hold, hnew⟩
    rw [FileSystem.outcome_path]
    refine ⟨old, _, hold, hnew, rfl, ?_⟩
    intro hname
    rw [patchOf, hold]
    exact Diff.Patch.apply_append_unified (oneLine_patchHeader hname) old _ hname
  · intro l content hget
    rw [hw.get?_ne_iff rfl hget, hlisted]
    constructor
    · rintro ⟨path, hpath, hchanged, hlocate⟩
      refine ⟨_, List.mem_map_of_mem hpath, hchanged, ?_⟩
      rw [FileSystem.outcome_path, hlocate]
    · rintro ⟨o, ho, hchanged, hlocate⟩
      rcases List.mem_map.1 ho with ⟨path, hpath, rfl⟩
      rw [FileSystem.outcome_path] at hlocate
      exact ⟨path, hpath, hchanged, hlocate⟩

/-- The file is told twice before it is written, and written once. -/
theorem dryRun_agrees_twice :
    let suffix : Suffix := some (ofAscii ".conf")
    let names := [ofAscii "d", ofAscii "y.conf"]
    let told : Summary := ⟨[{ path := ofAscii "d/x.conf", changed := true },
      { path := ofAscii "y.conf", changed := true }]⟩
    let done : Summary := ⟨[{ path := ofAscii "d/x.conf", changed := true },
      { path := ofAscii "y.conf" }]⟩
    let first := ofAscii "d/x.conf\n"
    let second := ofAscii "y.conf\n"
    let firstPatch := ofAscii ("diff d/x.conf hoconfmt/d/x.conf\n" ++
      "--- a/d/x.conf\n+++ b/d/x.conf\n@@ -1 +1 @@\n-  a\n+\ta\n")
    let secondPatch := ofAscii ("diff y.conf hoconfmt/y.conf\n--- a/y.conf\n+++ b/y.conf\n" ++
      "@@ -1 +1 @@\n-  a\n+\ta\n")
    let wl : World := { linkedFile with output := first ++ second }
    let wd : World := { linkedFile with output := firstPatch ++ secondPatch }
    let wb : World := { linkedFile with output := first ++ firstPatch ++ second ++ secondPatch }
    let wp : World := { linkedFile with output := ofAscii "\ta\n\ta\n" }
    let ww : World := { linkedFile with
      files := linkedFile.files.put [ofAscii "d", ofAscii "x.conf"] (.file (ofAscii "\ta\n")) }
    Completes {} { list := true } suffix names .broken linkedFile told wl ∧
      Completes {} { diff := true } suffix names .broken linkedFile told wd ∧
      Completes {} { list := true, diff := true } suffix names .broken linkedFile told wb ∧
      Completes {} {} suffix names .broken linkedFile told wp ∧
      Completes {} { write := true } suffix names .broken linkedFile done ww ∧
      Agreement linkedFile wl wd wb wp ww told told told told := by
  intro suffix names told done first second firstPatch secondPatch wl wd wb wp ww
  have hlist : Completes {} { list := true } suffix names .broken linkedFile told wl :=
    ⟨by decide +kernel, by decide⟩
  have hdiff : Completes {} { diff := true } suffix names .broken linkedFile told wd :=
    ⟨by decide +kernel, by decide⟩
  have hboth : Completes {} { list := true, diff := true } suffix names .broken linkedFile told
      wb :=
    ⟨by decide +kernel, by decide⟩
  have hprint : Completes {} {} suffix names .broken linkedFile told wp :=
    ⟨by decide +kernel, by decide⟩
  have hwrite : Completes {} { write := true } suffix names .broken linkedFile done ww :=
    ⟨by decide +kernel, by decide⟩
  exact ⟨hlist, hdiff, hboth, hprint, hwrite,
    dryRun_agrees (List.cons_ne_nil _ _) hlist hdiff hboth hprint hwrite⟩

end ConfIndent
