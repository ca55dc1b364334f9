import ConfIndent.Proofs.Batch.Fate
import ConfIndent.Proofs.Batch.WriteBack

/-!
# Running a Batch Again

A batch that has written without an error leaves nothing to be done. Running it again
comes to the same paths, because writing keeps the shape and the plan of a batch is read
off the shape. At each path there is a file that cannot be opened, which is left out as
before, or a file that is formatted.

A visit to such a path is idle. Whatever the options are, it meets no error, it leaves
the files as they are and, unless documents are to be printed, it prints nothing. So
idle visits do not get in each other's way, and a batch of them ends.

## Main definitions

* `FileSystem.Idle`: At a path there is nothing to be done.

## Theorems

* `idle_of_visited`: A batch that writes leaves its paths idle.
* `exists_processOne_of_idle`: What an idle visit does.
* `run_again`: A batch that has written has nothing to do a second time.
-/

namespace ConfIndent

open Bytes

/-- At the path there is nothing to be done: the file is left out, or it is formatted
    already. -/
def FileSystem.Idle (fs : FileSystem) (faults : Faults) (path : FileName) : Prop :=
  (∃ name reason, fs.source faults path = .error (.skipped name reason)) ∨
    ∃ content, fs.source faults path = .ok content ∧ content = faults.format content

section Visits

variable {faults : Faults} {options : Options} {path : FileName} {w : World}

-- The other errors would have been recorded, or would have stopped the batch.
theorem exists_skipped_of_readable {fs : FileSystem} {e : FileError}
    (hreadable : path ∉ faults.unopenable → path ∉ faults.unreadable ∧ 0 ∉ path)
    (h : fs.source faults path = .error e) : ∃ name reason, e = .skipped name reason := by
  unfold FileSystem.source at h
  by_cases hopen : path ∈ faults.unopenable
  · rw [if_pos hopen, Except.error.injEq] at h
    exact ⟨path, _, h.symm⟩
  · rw [if_neg hopen, if_neg (hreadable hopen).1, if_neg (hreadable hopen).2] at h
    rcases hread : fs.read path with c | content
    · rw [hread] at h
      exact ⟨path, _, (Except.error.inj h).symm⟩
    · rw [hread] at h
      exact absurd h (by simp only [reduceCtorEq, not_false_eq_true])

/-- A batch that writes leaves its paths idle. -/
theorem idle_of_visited {paths : List FileName} {outcomes : List Outcome} {w' : World}
    (hwrite : options.write = true) (h : Visited faults options paths w outcomes w')
    (hpath : path ∈ paths) : w'.files.Idle faults path := by
  have hfiles := h.files
  rw [if_pos hwrite] at hfiles
  have hshape : w'.files.shape = w.files.shape := by
    rw [hfiles, FileSystem.shape_foldl_rewritten]
  rcases hsource : w'.files.source faults path with e | content
  · rcases exists_skipped_of_readable (h.readable path hpath) hsource with ⟨name, reason, rfl⟩
    exact .inl ⟨name, reason, hsource⟩
  · rcases FileSystem.opens_of_source hsource with ⟨l, hopens, hget⟩
    -- The file was there before, and this visit has formatted it if none before has.
    have hopens' := (FileSystem.opens_congr hshape faults path l).1 hopens
    rcases FileSystem.exists_file_of_shape hshape hget with ⟨old, hold⟩
    rw [hfiles, FileSystem.get?_foldl_of_opens hold ⟨path, hpath, hopens'⟩, Option.some_inj,
      Entry.file.injEq] at hget
    exact .inr ⟨content, hsource, by rw [← hget, Faults.format_format]⟩

/-- What an idle visit does, unless it is to print the document. -/
theorem exists_processOne_of_idle (hquiet : options.printsResult = false)
    (hidle : w.files.Idle faults path) :
    ∃ w', processOne faults options path none w = .ok (w.files.outcome faults path) w' ∧
      w'.files = w.files ∧ w'.output = w.output := by
  rcases hidle with ⟨name, reason, hsource⟩ | ⟨content, hsource, hformatted⟩
  · rcases processOne_of_skipped hsource with ⟨log, hone⟩
    rw [FileSystem.outcome, hsource]
    exact ⟨{ w with log := log }, hone, rfl, rfl⟩
  · have hfails : ¬w.files.Fails faults options path content :=
      FileSystem.not_fails_of_formatted hformatted hquiet
    rcases processOne_of_not_fails hsource hfails with ⟨w', hone, hfiles, houtput⟩
    refine ⟨w', hone, ?_, ?_⟩
    · rw [hfiles, settled_of_not_fails hsource hfails,
        FileSystem.rewritten_of_formatted hsource hformatted, ite_self]
    · rw [houtput, FileSystem.printed_of_source options hsource,
        FileSystem.printedDocument_of_formatted path hformatted hquiet, List.append_nil]

theorem outcome_of_idle {fs : FileSystem} (h : fs.Idle faults path) :
    (fs.outcome faults path).changed = false ∧ (fs.outcome faults path).error = none := by
  unfold FileSystem.outcome
  rcases h with ⟨name, reason, hsource⟩ | ⟨content, hsource, hformatted⟩
  · rw [hsource]
    exact ⟨rfl, rfl⟩
  · rw [hsource]
    exact ⟨decide_eq_false (not_not_intro hformatted), rfl⟩

/-- Idle visits come to an end, and do nothing. -/
theorem exists_mapM_of_idle (hquiet : options.printsResult = false) {fs : FileSystem}
    {paths : List FileName} (hidle : ∀ path ∈ paths, fs.Idle faults path)
    (hfiles : w.files = fs) :
    ∃ w', (paths.map Visit.file).mapM
        (Visit.act (fun path => processOne faults options path none) unlistable) w =
          .ok (paths.map (fs.outcome faults)) w' ∧
      w'.files = fs ∧ w'.output = w.output := by
  induction paths generalizing w with
  | nil => exact ⟨w, rfl, hfiles, rfl⟩
  | cons path paths ih =>
    have hfirst := hidle path List.mem_cons_self
    rw [← hfiles] at hfirst
    rcases exists_processOne_of_idle hquiet hfirst with ⟨w₁, hone, hfiles₁, houtput₁⟩
    rcases ih (fun path hpath => hidle path (List.mem_cons_of_mem _ hpath))
      (hfiles₁.trans hfiles) with ⟨w₂, hlater, hfiles₂, houtput₂⟩
    refine ⟨w₂, ?_, hfiles₂, houtput₂.trans houtput₁⟩
    rw [hfiles] at hone
    have hact : Visit.act (fun path => processOne faults options path none) unlistable
        (.file path) w = .ok (fs.outcome faults path) w₁ := hone
    exact Action.mapM_cons_eq_ok_iff.2 ⟨_, _, w₁, hact, hlater, rfl⟩

end Visits

/-- A batch that has written without an error has nothing to do a second time. With any
    option that acts on changes, it comes to the same paths, leaves out the same files,
    finds nothing changed and no error, prints nothing and leaves the files alone. -/
theorem run_again {faults : Faults} {options options' : Options} (hwrite : options.write = true)
    (hsome : options'.list = true ∨ options'.write = true ∨ options'.diff = true)
    {suffix : Suffix} {names : List FileName} (hnames : names ≠ []) {input : Input} {s : Summary}
    {w w' : World} (hrun : run faults options suffix names input w = .ok s w')
    (herror : s.errorCount = 0) (input' : Input) {v : World} (hfiles : v.files = w'.files) :
    ∃ s' v', run faults options' suffix names input' v = .ok s' v' ∧
      s'.outcomes.map Outcome.path = s.outcomes.map Outcome.path ∧
      s'.outcomes.map Outcome.skipped = s.outcomes.map Outcome.skipped ∧
      (∀ o ∈ s'.outcomes, o.changed = false ∧ o.error = none) ∧
      v'.output = v.output ∧ v'.files = v.files ∧ s'.exitCode = Summary.exitOk := by
  have hquiet : options'.printsResult = false := by
    rw [Options.printsResult, Bool.not_eq_false', Bool.or_eq_true, Bool.or_eq_true, or_assoc]
    exact hsome
  rcases exists_paths_of_run hnames hrun herror with ⟨paths, hplan, hvisited⟩
  have hshape : v.files.shape = w.files.shape := by
    rw [hfiles, hvisited.files, if_pos hwrite, FileSystem.shape_foldl_rewritten]
  have hplan' : v.files.planNames faults suffix names = paths.map Visit.file := by
    rw [FileSystem.planNames_congr hshape, hplan]
  have hidle : ∀ path ∈ paths, v.files.Idle faults path := by
    intro path hpath
    rw [hfiles]
    exact idle_of_visited hwrite hvisited hpath
  rcases exists_mapM_of_idle hquiet hidle rfl with ⟨v', hvisits, hfiles', houtput'⟩
  have hrun' : run faults options' suffix names input' v =
      .ok ⟨paths.map (v.files.outcome faults)⟩ v' := by
    rw [run_eq_ok_iff hnames, hplan']
    exact hvisits
  have hcarried := carried_of_run hnames hrun
  have hcarried' := carried_of_run hnames hrun'
  rw [hplan] at hcarried
  rw [hplan'] at hcarried'
  have hquiets : ∀ o ∈ paths.map (v.files.outcome faults), o.changed = false ∧ o.error = none := by
    intro o ho
    rcases List.mem_map.1 ho with ⟨path, hpath, rfl⟩
    exact outcome_of_idle (hidle path hpath)
  refine ⟨_, v', hrun', ?_, ?_, hquiets, houtput', hfiles', ?_⟩
  · rw [hcarried'.paths, hcarried.paths]
  · exact hcarried'.map_skipped hcarried hshape
  · rw [Summary.exitCode, if_pos (Summary.errorCount_eq_zero_iff.2 fun o ho => (hquiets o ho).2)]

/-- A file that was written, and a link that cannot be opened, when their batch is run
    again to list and show changes. -/
theorem run_again_linked :
    let faults : Faults := { unopenable := [ofAscii "y.conf"] }
    let names := [ofAscii "d", ofAscii "y.conf"]
    let s : Summary := ⟨[{ path := ofAscii "d/x.conf", changed := true },
      { path := ofAscii "y.conf", skipped := true }]⟩
    ∃ w', run faults { write := true } (some (ofAscii ".conf")) names .broken linkedFile =
        .ok s w' ∧
      s.errorCount = 0 ∧
      ∃ s' v', run faults { list := true, diff := true } (some (ofAscii ".conf")) names .broken w' =
          .ok s' v' ∧
        s'.outcomes.map Outcome.path = s.outcomes.map Outcome.path ∧
        s'.outcomes.map Outcome.skipped = s.outcomes.map Outcome.skipped ∧
        (∀ o ∈ s'.outcomes, o.changed = false ∧ o.error = none) ∧
        v'.output = w'.output ∧ v'.files = w'.files ∧ s'.exitCode = Summary.exitOk := by
  intro faults names s
  let w' : World := { linkedFile with
    files := linkedFile.files.put [ofAscii "d", ofAscii "x.conf"] (.file (ofAscii "\ta\n"))
    log := [⟨.warning, "skipping y.conf: [Errno 13] Permission denied: 'y.conf'"⟩] }
  have hrun : run faults { write := true } (some (ofAscii ".conf")) names .broken linkedFile =
      .ok s w' := by
    decide +kernel
  have herror : s.errorCount = 0 := by
    decide
  exact ⟨w', hrun, herror,
    run_again rfl (.inl rfl) (List.cons_ne_nil _ _) hrun herror .broken rfl⟩

end ConfIndent
