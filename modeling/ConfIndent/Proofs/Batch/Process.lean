import ConfIndent.Proofs.Batch.Effect

/-!
# Visits Without an Error

What comes of the files that a batch visits. The effect of processing a document
says it of one visit, errors included. A visit that fails may have written its file
before, but no visit changes the shape.

As long as no error is met, all that comes of a visit is read off the file system
before it. From one visit to a batch it is one step, since a batch carries its plan
out. Visits that only look leave the files alone, so their outcomes are those of the
file system at the beginning.

## Main definitions

* `FileSystem.settled`: The file system after a visit.
* `FileSystem.Opens`: A path can be opened and leads to a location.
* `Visited`: What visits without an error come to.

## Theorems

* `keepsShape_processOne`: No visit changes the shape.
* `run_eq_ok_iff`: A batch ends as the visits of its plan do.
* `processOne_eq`: A visit without an error does what the file system determines.
* `FileSystem.get?_foldl_of_opens`: The content of a file after a list of visits.
* `exists_paths_of_run`: A batch without an error is a list of such visits.
-/

namespace ConfIndent

open Bytes

/-- The file system after a visit to a file, whether or not an error is met. -/
def FileSystem.settled (fs : FileSystem) (faults : Faults) (options : Options)
    (path : FileName) : FileSystem :=
  if fs.Stores faults options path then fs.stored faults path else fs

theorem FileSystem.shape_settled (fs : FileSystem) (faults : Faults) (options : Options)
    (path : FileName) : (fs.settled faults options path).shape = fs.shape := by
  unfold settled
  split
  · exact shape_stored fs faults path
  · rfl

section Visits

variable {faults : Faults} {options : Options} {path : FileName} {w w' : World}

/-- The effect of processing a file that can be read. -/
theorem effect_visit {content : Bytes} (h : w.files.source faults path = .ok content) :
    Effect (processFile faults options path none) w (decide (content ≠ faults.format content))
      (w.files.Fails faults options path content) (w.files.settled faults options path)
      (w.files.printed faults options path) := by
  have hsource : Action.readSource faults path none w = .ok content w := by
    rw [Action.readSource_run, h]
    rfl
  rw [FileSystem.printed_of_source options h, FileSystem.settled, FileSystem.stored, h]
  rcases FileSystem.read_of_source h with ⟨-, -, hnull, hread⟩
  exact effect_processFile faults options hsource fun _ => ⟨hread, hnull⟩

-- What an error of a file is recorded as.
theorem processOne_of_error {e : FileError}
    (h : processFile faults options path none w = .error e w') (he : e.isRecorded) :
    processOne faults options path none w =
      .ok { path := path, error := some e.message } w' := by
  rw [processOne, h, recorded_of_isRecorded he]

/-- A document that can be had and whose handling fails is recorded with an error. -/
theorem processOne_of_fails {content : Bytes} (hsource : w.files.source faults path = .ok content)
    (hfails : w.files.Fails faults options path content) :
    ∃ reason w', processOne faults options path none w =
        .ok { path := path, error := some reason } w' ∧
      w'.files = w.files.settled faults options path := by
  rcases (effect_visit hsource).error hfails with ⟨e, w', hfile, he, hfiles⟩
  exact ⟨e.message, w', processOne_of_error hfile he, hfiles⟩

/-- A document that can be had and whose handling does not fail is settled and printed as it should
    be. -/
theorem processOne_of_not_fails {content : Bytes}
    (hsource : w.files.source faults path = .ok content)
    (hfails : ¬w.files.Fails faults options path content) :
    ∃ w', processOne faults options path none w = .ok (w.files.outcome faults path) w' ∧
      w'.files = w.files.settled faults options path ∧
      w'.output = w.output ++ w.files.printed faults options path := by
  rcases (effect_visit hsource).ok hfails with ⟨w', hfile, hfiles, houtput⟩
  refine ⟨w', ?_, hfiles, houtput⟩
  simp only [processOne, hfile, recorded, FileSystem.outcome, hsource]

/-- A file that is left out is recorded and logged. -/
theorem processOne_of_skipped {name : FileName} {reason : SystemError}
    (hsource : w.files.source faults path = .error (.skipped name reason)) :
    ∃ log, processOne faults options path none w =
      .ok { path := path, skipped := true } { w with log := log } := by
  rw [processOne, processFile_of_error hsource]
  exact ⟨_, rfl⟩

/-- What a visit leaves behind. -/
theorem files_of_processOne {o : Outcome} (h : processOne faults options path none w = .ok o w') :
    w'.files = w.files.settled faults options path := by
  rcases hsource : w.files.source faults path with e | content
  · have hsettled : w.files.settled faults options path = w.files := by
      simp only [FileSystem.settled, FileSystem.stored, hsource, ite_self]
    rw [processOne, processFile_of_error hsource] at h
    rw [hsettled]
    cases e <;> cases h <;> rfl
  · by_cases hfails : w.files.Fails faults options path content
    · rcases processOne_of_fails hsource hfails with ⟨reason, w₁, hone, hfiles⟩
      rw [hone] at h
      cases h
      exact hfiles
    · rcases processOne_of_not_fails hsource hfails with ⟨w₁, hone, hfiles, -⟩
      rw [hone] at h
      cases h
      exact hfiles

/-- No visit changes the shape. -/
theorem keepsShape_processOne (faults : Faults) (options : Options) (path : FileName) :
    KeepsShape (processOne faults options path none) := by
  intro w o w' h
  rw [files_of_processOne h, FileSystem.shape_settled]

/-- A batch ends as the visits of its plan do. -/
theorem run_eq_ok_iff {suffix : Suffix} {names : List FileName} (hnames : names ≠ [])
    {input : Input} {s : Summary} :
    run faults options suffix names input w = .ok s w' ↔
      (w.files.planNames faults suffix names).mapM
        (Visit.act (fun path => processOne faults options path none) unlistable) w =
          .ok s.outcomes w' := by
  rw [run_eq faults options suffix hnames input w (keepsShape_processOne faults options),
    map_eq_pure_bind]
  constructor
  · intro h
    rcases Action.exists_of_bind h with ⟨outcomes, w₁, hvisits, hpure⟩
    cases hpure
    exact hvisits
  · intro hvisits
    rw [Action.bind_of_ok hvisits]
    rfl

/-- What can be opened and causes no error can be read. -/
theorem readable_of_processOne {o : Outcome}
    (h : processOne faults options path none w = .ok o w')
    (herror : o.error = none) (hopen : path ∉ faults.unopenable) :
    path ∉ faults.unreadable ∧ 0 ∉ path := by
  by_cases hread : path ∈ faults.unreadable
  · have hsource : w.files.source faults path = .error (.unreadable path ⟨.inputOutput, none⟩) := by
      rw [FileSystem.source, if_neg hopen, if_pos hread]
    rw [processOne, processFile_of_error hsource] at h
    cases h
    exact absurd herror (Option.some_ne_none _)
  · refine ⟨hread, ?_⟩
    intro hnull
    have hsource : w.files.source faults path = .error .nullInName := by
      rw [FileSystem.source, if_neg hopen, if_neg hread, if_pos hnull]
    rw [processOne, processFile_of_error hsource] at h
    cases h

/-- Without an error, what is to be written is written. -/
theorem settled_of_not_fails {content : Bytes} (hsource : w.files.source faults path = .ok content)
    (hfails : ¬w.files.Fails faults options path content) :
    w.files.settled faults options path =
      if options.write then w.files.rewritten faults path else w.files := by
  unfold FileSystem.settled
  by_cases hchanged : content = faults.format content
  · -- There is nothing to be written.
    have hsame : w.files.stored faults path = w.files := by
      simp only [FileSystem.stored, hsource, FileSystem.filled, if_pos hchanged]
    rw [FileSystem.rewritten_of_formatted hsource hchanged, hsame, ite_self, ite_self]
  · have hnone : ¬w.files.ChangeFails faults options path (faults.format content) :=
      fun h => hfails (.inl ⟨hchanged, h⟩)
    have htakes : options.write → w.files.Takes faults path (faults.format content) :=
      fun hwrite => Decidable.byContradiction fun h => hnone (.inr (.inl ⟨hwrite, h⟩))
    have hstores : w.files.Stores faults options path ↔ options.write :=
      ⟨fun h => h.1, fun hwrite => ⟨hwrite, fun h => hnone (.inl h), (htakes hwrite).1⟩⟩
    refine ite_congr (propext hstores) (fun hwrite => ?_) fun _ => rfl
    exact FileSystem.stored_eq_rewritten hsource (htakes hwrite).2

/-- A visit without an error does what the file system before it determines. -/
theorem processOne_eq {o : Outcome} (h : processOne faults options path none w = .ok o w')
    (herror : o.error = none) :
    o = w.files.outcome faults path ∧
      w'.files = (if options.write then w.files.rewritten faults path else w.files) ∧
      w'.output = w.output ++ w.files.printed faults options path := by
  rcases hsource : w.files.source faults path with e | content
  · -- The file was left out, for any other cause would be an error.
    simp only [FileSystem.outcome, FileSystem.rewritten, FileSystem.printed, hsource, ite_self,
      List.append_nil]
    rw [processOne, processFile_of_error hsource] at h
    cases e with
    | skipped name reason =>
      cases h
      exact ⟨rfl, rfl, rfl⟩
    | nullInName => cases h
    | unreadable | unwritable | incomparable | unprintable =>
      cases h
      exact absurd herror (Option.some_ne_none _)
  · by_cases hfails : w.files.Fails faults options path content
    · rcases processOne_of_fails hsource hfails with ⟨reason, w₁, hone, -⟩
      rw [hone] at h
      cases h
      exact absurd herror (Option.some_ne_none _)
    · rcases processOne_of_not_fails hsource hfails with ⟨w₁, hone, hfiles, houtput⟩
      rw [hone] at h
      cases h
      exact ⟨rfl, by rw [hfiles, settled_of_not_fails hsource hfails], houtput⟩

end Visits

namespace FileSystem

/-- The name can be opened and read, and leads to a location. -/
def Opens (fs : FileSystem) (faults : Faults) (name : FileName) (l : Location) : Prop :=
  name ∉ faults.unopenable ∧ name ∉ faults.unreadable ∧ 0 ∉ name ∧
    fs.locate .read name = .ok (.taken l)

theorem opens_congr {fs fs' : FileSystem} (h : fs.shape = fs'.shape) (faults : Faults)
    (name : FileName) (l : Location) : fs.Opens faults name l ↔ fs'.Opens faults name l := by
  unfold Opens
  rw [← locate_shape fs, h, locate_shape fs']

theorem source_eq_of_opens {fs : FileSystem} {faults : Faults} {name : FileName} {l : Location}
    {content : Bytes} (h : fs.Opens faults name l) (hget : fs.get? l = some (.file content)) :
    fs.source faults name = .ok content := by
  rcases h with ⟨hopen, hread, hnull, hlocate⟩
  rw [source, if_neg hopen, if_neg hread, if_neg hnull, read_eq_of_locate hlocate hget]

/-- A document that can be had stands somewhere. -/
theorem opens_of_source {fs : FileSystem} {faults : Faults} {name : FileName} {content : Bytes}
    (h : fs.source faults name = .ok content) :
    ∃ l, fs.Opens faults name l ∧ fs.get? l = some (.file content) := by
  rcases read_of_source h with ⟨hopen, hread, hnull, hfile⟩
  rcases exists_of_read hfile with ⟨l, hlocate, hget⟩
  exact ⟨l, ⟨hopen, hread, hnull, hlocate⟩, hget⟩

theorem get?_rewritten_of_opens {fs : FileSystem} {faults : Faults} {path : FileName} {l : Location}
    {content : Bytes} (h : fs.Opens faults path l) (hget : fs.get? l = some (.file content)) :
    (fs.rewritten faults path).get? l = some (.file (faults.format content)) := by
  simp only [rewritten, source_eq_of_opens h hget, replace, h.2.2.2]
  rw [get?_put fs (ne_nil_of_get?_file hget), if_pos rfl]

/-- Whatever is written to a file, the others stay as they are. -/
theorem get?_replace_of_not_opens {fs : FileSystem} {faults : Faults} {path : FileName}
    {l : Location} {content : Bytes} (hsource : fs.source faults path = .ok content)
    (h : ¬fs.Opens faults path l) (new : Bytes) : (fs.replace path new).get? l = fs.get? l := by
  rcases opens_of_source hsource with ⟨k, hopens, hget⟩
  -- The file that is written is another one.
  have hne : l ≠ k := by
    rintro rfl
    exact h hopens
  simp only [replace, hopens.2.2.2]
  rw [get?_put fs (ne_nil_of_get?_file hget), if_neg hne]

theorem get?_rewritten_of_not_opens {fs : FileSystem} {faults : Faults} {path : FileName}
    {l : Location} (h : ¬fs.Opens faults path l) :
    (fs.rewritten faults path).get? l = fs.get? l := by
  unfold rewritten
  rcases hsource : fs.source faults path with e | content
  · rfl
  · exact get?_replace_of_not_opens hsource h _

theorem get?_stored_of_not_opens {fs : FileSystem} {faults : Faults} {path : FileName}
    {l : Location} (h : ¬fs.Opens faults path l) :
    (fs.stored faults path).get? l = fs.get? l := by
  unfold stored
  rcases hsource : fs.source faults path with e | content
  · rfl
  · dsimp only
    unfold filled
    split
    · rfl
    · exact get?_replace_of_not_opens hsource h _

/-- Whatever is rewritten, a file that no path opens stays as it is. -/
theorem get?_foldl_of_not_opens {faults : Faults} {paths : List FileName} {fs : FileSystem}
    {l : Location} (h : ∀ path ∈ paths, ¬fs.Opens faults path l) :
    (paths.foldl (rewritten · faults) fs).get? l = fs.get? l := by
  induction paths generalizing fs with
  | nil => rfl
  | cons path paths ih =>
    rw [List.foldl_cons, ih, get?_rewritten_of_not_opens (h path List.mem_cons_self)]
    intro path' hpath'
    rw [opens_congr (shape_rewritten fs faults path)]
    exact h path' (List.mem_cons_of_mem _ hpath')

/-- A file that some visit opens has been formatted in the end, however often and in
    whatever order that happened. -/
theorem get?_foldl_of_opens {faults : Faults} {paths : List FileName} {fs : FileSystem}
    {l : Location} {content : Bytes} (hget : fs.get? l = some (.file content))
    (h : ∃ path ∈ paths, fs.Opens faults path l) :
    (paths.foldl (rewritten · faults) fs).get? l = some (.file (faults.format content)) := by
  induction paths generalizing fs content with
  | nil =>
    rcases h with ⟨path, hpath, -⟩
    exact absurd hpath List.not_mem_nil
  | cons first paths ih =>
    rw [List.foldl_cons]
    -- Which paths lead to the file is not changed by formatting another.
    have hcongr := opens_congr (shape_rewritten fs faults first) faults
    by_cases hlater : ∃ path ∈ paths, (fs.rewritten faults first).Opens faults path l
    · by_cases hfirst : fs.Opens faults first l
      · -- Later visits find the file formatted already.
        rw [ih (get?_rewritten_of_opens hfirst hget) hlater, Faults.format_format]
      · rw [ih (by rw [get?_rewritten_of_not_opens hfirst, hget]) hlater]
    · have hfirst : fs.Opens faults first l := by
        rcases h with ⟨path, hpath, hopens⟩
        rcases List.mem_cons.1 hpath with rfl | hpath
        · exact hopens
        · exact absurd ⟨path, hpath, (hcongr path l).2 hopens⟩ hlater
      rw [get?_foldl_of_not_opens fun path hpath hopens => hlater ⟨path, hpath, hopens⟩,
        get?_rewritten_of_opens hfirst hget]

end FileSystem

/-- What visits to the paths come to, if none of them causes an error. -/
structure Visited (faults : Faults) (options : Options) (paths : List FileName) (w : World)
    (outcomes : List Outcome) (w' : World) : Prop where
  readable : ∀ path ∈ paths, path ∉ faults.unopenable → path ∉ faults.unreadable ∧ 0 ∉ path
  files : w'.files =
    if options.write then paths.foldl (FileSystem.rewritten · faults) w.files else w.files
  outcomes_eq : options.write = false → outcomes = paths.map (w.files.outcome faults)
  output_eq : options.write = false →
    w'.output = w.output ++ paths.flatMap (w.files.printed faults options)

/-- Visits that cause no error are visits to files. -/
theorem exists_paths_of_mapM {faults : Faults} {options : Options} {visits : List Visit}
    {outcomes : List Outcome} {w w' : World}
    (h : visits.mapM (Visit.act (fun path => processOne faults options path none) unlistable) w =
      .ok outcomes w')
    (herror : ∀ o ∈ outcomes, o.error = none) :
    ∃ paths, visits = paths.map Visit.file ∧ Visited faults options paths w outcomes w' := by
  induction visits generalizing outcomes w with
  | nil =>
    cases h
    refine ⟨[], rfl, ?_, ?_, ?_, ?_⟩
    · intro path hpath
      exact absurd hpath List.not_mem_nil
    · rw [List.foldl_nil, ite_self]
    · intro _
      rfl
    · intro _
      rw [List.flatMap_nil, List.append_nil]
  | cons visit visits ih =>
    rcases Action.mapM_cons_eq_ok_iff.1 h with ⟨o, os, w₁, hfirst, hlater, rfl⟩
    have ho := herror o List.mem_cons_self
    rcases ih hlater (fun o ho => herror o (List.mem_cons_of_mem _ ho)) with ⟨paths, rfl, hvisited⟩
    -- A crash would have ended the batch, and a directory passed over is an error.
    cases visit with
    | crash c => cases hfirst
    | unlistable reason =>
      cases hfirst
      exact absurd ho (Option.some_ne_none _)
    | file path =>
      rcases processOne_eq hfirst ho with ⟨houtcome, hfiles, houtput⟩
      refine ⟨path :: paths, rfl, ?_, ?_, ?_, ?_⟩
      · intro path' hpath'
        rcases List.mem_cons.1 hpath' with rfl | hpath'
        · exact readable_of_processOne hfirst ho
        · exact hvisited.readable path' hpath'
      · rw [hvisited.files, hfiles]
        cases options.write <;> rfl
      · intro hwrite
        rw [hwrite, if_neg Bool.false_ne_true] at hfiles
        rw [hvisited.outcomes_eq hwrite, houtcome, hfiles, List.map_cons]
      · intro hwrite
        rw [hwrite, if_neg Bool.false_ne_true] at hfiles
        rw [hvisited.output_eq hwrite, houtput, hfiles, List.flatMap_cons, List.append_assoc]

theorem Summary.errorCount_eq_zero_iff {s : Summary} :
    s.errorCount = 0 ↔ ∀ o ∈ s.outcomes, o.error = none := by
  rw [errorCount, errors, List.length_eq_zero_iff, List.filterMap_eq_nil_iff]

/-- A batch without an error is a list of visits that its plan tells. -/
theorem exists_paths_of_run {faults : Faults} {options : Options} {suffix : Suffix}
    {names : List FileName} (hnames : names ≠ []) {input : Input} {s : Summary} {w w' : World}
    (h : run faults options suffix names input w = .ok s w') (herror : s.errorCount = 0) :
    ∃ paths, w.files.planNames faults suffix names = paths.map Visit.file ∧
      Visited faults options paths w s.outcomes w' := by
  rw [run_eq_ok_iff hnames] at h
  exact exists_paths_of_mapM h (Summary.errorCount_eq_zero_iff.1 herror)

end ConfIndent
