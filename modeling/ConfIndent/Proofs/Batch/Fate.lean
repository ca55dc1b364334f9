import ConfIndent.Proofs.Batch.Process

/-!
# Visits Whatever Comes of Them

A visit has one of four fates: an error was met, the file was left out, or it was
handled, and formatting changed it or not. The outcome of the visit tells its fate and
nothing but the fate, apart from the path and the text of the error.

Both the fate of a visit and the file system behind it are read off the file system
before it. So the fates of a list of visits are known too, errors or not, by going from
one file system to the next. A batch that ends has these fates, and counting its
outcomes is counting fates.

That a file is left out is decided by the shape alone, and so is whether it would be
opened to be written. Whether formatting changes it depends on the visits before, and so
may how much room there is for it.

## Main definitions

* `Fate`: What became of a visit.
* `Outcome.fate?`: The fate that an outcome tells.
* `FileSystem.fate`, `Visit.fate`: The fate of a visit.
* `Visit.fates`: The fates of a list of visits.
* `Carried`: What visits come to.

## Theorems

* `fate_of_processOne`: The outcome of a visit tells its fate.
* `Summary.counts_eq`: Counting outcomes is counting fates.
* `carried_of_run`: A batch that ends is a list of visits, each with its fate.
* `Carried.map_skipped`: The same files are left out of batches on one shape.
-/

namespace ConfIndent

/-- What became of a visit. -/
inductive Fate where
  /-- An error was met. -/
  | failed
  /-- The file was left out. -/
  | skipped
  /-- The file was handled, and formatting changed it. -/
  | changed
  /-- The file was handled, and it was formatted already. -/
  | unchanged
  deriving DecidableEq, Repr

/-- The fate that an outcome tells. An outcome with an error that is also skipped, say,
    tells none. -/
def Outcome.fate? (o : Outcome) : Option Fate :=
  match o.error, o.skipped, o.changed with
  | some _, false, false => some .failed
  | none, true, false => some .skipped
  | none, false, true => some .changed
  | none, false, false => some .unchanged
  | _, _, _ => none

theorem Outcome.flags_of_fate? {o : Outcome} {fate : Fate} (h : o.fate? = some fate) :
    o.error.isSome = decide (fate = .failed) ∧ o.skipped = decide (fate = .skipped) ∧
      o.changed = decide (fate = .changed) := by
  rcases o with ⟨path, _ | _, _ | _, _ | _⟩ <;> cases h <;> exact ⟨rfl, rfl, rfl⟩

/-- A flag of outcomes that tells one fate, over a list of outcomes. -/
theorem Outcome.map_flag {flag : Outcome → Bool} {f : Fate}
    (hflag : ∀ o fate, o.fate? = some fate → flag o = decide (fate = f)) {outcomes : List Outcome}
    {fates : List Fate} (h : outcomes.map fate? = fates.map some) :
    outcomes.map flag = fates.map fun fate => decide (fate = f) := by
  induction outcomes generalizing fates with
  | nil =>
    rw [List.map_nil, eq_comm, List.map_eq_nil_iff] at h
    rw [h]
    rfl
  | cons o outcomes ih =>
    rcases fates with _ | ⟨fate, fates⟩
    · cases h
    · rw [List.map_cons, List.map_cons, List.cons.injEq] at h
      rw [List.map_cons, List.map_cons, ih h.2, hflag o fate h.1]

namespace FileSystem

/-- The fate of a visit to a file. -/
def fate (fs : FileSystem) (faults : Faults) (options : Options) (path : FileName) : Fate :=
  match fs.source faults path with
  | .error e => if e.isRecorded then .failed else .skipped
  | .ok content =>
    if fs.Fails faults options path content then .failed
    else if content = faults.format content then .unchanged
    else .changed

/-- A formatted document is only read, unless it is to be printed. -/
theorem not_fails_of_formatted {fs : FileSystem} {faults : Faults} {options : Options}
    {path : FileName} {content : Bytes} (hformatted : content = faults.format content)
    (hquiet : options.printsResult = false) : ¬fs.Fails faults options path content := by
  rintro (⟨hchanged, -⟩ | ⟨hprints, -⟩)
  · exact hchanged hformatted
  · rw [hquiet] at hprints
    exact Bool.false_ne_true hprints

end FileSystem

/-- The outcome of a visit tells its path and its fate. -/
theorem fate_of_processOne {faults : Faults} {options : Options} {path : FileName}
    {w w' : World} {o : Outcome} (h : processOne faults options path none w = .ok o w') :
    o.path = path ∧ o.fate? = some (w.files.fate faults options path) := by
  rcases hsource : w.files.source faults path with e | content
  · rw [processOne, processFile_of_error hsource] at h
    simp only [FileSystem.fate, hsource]
    cases e <;> cases h <;> exact ⟨rfl, rfl⟩
  · simp only [FileSystem.fate, hsource]
    by_cases hfails : w.files.Fails faults options path content
    · rcases processOne_of_fails hsource hfails with ⟨reason, w₁, hone, -⟩
      rw [hone] at h
      cases h
      rw [if_pos hfails]
      exact ⟨rfl, rfl⟩
    · rcases processOne_of_not_fails hsource hfails with ⟨w₁, hone, -⟩
      rw [hone] at h
      cases h
      rw [if_neg hfails]
      simp only [FileSystem.outcome, hsource, true_and]
      by_cases hchanged : content = faults.format content
      · rw [if_pos hchanged, decide_eq_false (not_not_intro hchanged)]
        rfl
      · rw [if_neg hchanged, decide_eq_true hchanged]
        rfl

namespace Visit

/-- The path that a visit is told by. -/
def path : Visit → FileName
  | file path => path
  | unlistable reason => reason.name.getD []
  | crash _ => []

/-- The fate of a visit. -/
def fate (faults : Faults) (options : Options) (fs : FileSystem) : Visit → Fate
  | file path => fs.fate faults options path
  | unlistable _ => .failed
  | crash _ => .failed

/-- The file system after a visit. -/
def settled (faults : Faults) (options : Options) (fs : FileSystem) : Visit → FileSystem
  | file path => fs.settled faults options path
  | unlistable _ => fs
  | crash _ => fs

/-- The fates of a list of visits, each from the file system that those before it have
    left behind. -/
def fates (faults : Faults) (options : Options) : FileSystem → List Visit → List Fate
  | _, [] => []
  | fs, visit :: visits =>
    visit.fate faults options fs :: fates faults options (visit.settled faults options fs) visits

@[simp] theorem shape_settled (faults : Faults) (options : Options) (fs : FileSystem)
    (visit : Visit) : (visit.settled faults options fs).shape = fs.shape := by
  cases visit with
  | file path => exact fs.shape_settled faults options path
  | unlistable reason => rfl
  | crash c => rfl

end Visit

/-- What visits come to, if they come to an end. -/
structure Carried (faults : Faults) (options : Options) (visits : List Visit) (w : World)
    (outcomes : List Outcome) (w' : World) : Prop where
  no_crash : ∀ c, Visit.crash c ∉ visits
  paths : outcomes.map Outcome.path = visits.map Visit.path
  fates : outcomes.map Outcome.fate? = (Visit.fates faults options w.files visits).map some
  files : w'.files = visits.foldl (Visit.settled faults options) w.files

-- One visit, and what follows it.
theorem Carried.cons {faults : Faults} {options : Options} {visit : Visit} {visits : List Visit}
    {w w₁ w' : World} {o : Outcome} {outcomes : List Outcome}
    (hcrash : ∀ c, visit ≠ .crash c) (hpath : o.path = visit.path)
    (hfate : o.fate? = some (visit.fate faults options w.files))
    (hfiles : w₁.files = visit.settled faults options w.files)
    (h : Carried faults options visits w₁ outcomes w') :
    Carried faults options (visit :: visits) w (o :: outcomes) w' := by
  refine ⟨?_, ?_, ?_, ?_⟩
  · intro c hc
    rcases List.mem_cons.1 hc with hc | hc
    · exact hcrash c hc.symm
    · exact h.no_crash c hc
  · rw [List.map_cons, List.map_cons, hpath, h.paths]
  · rw [List.map_cons, Visit.fates, List.map_cons, hfate, h.fates, hfiles]
  · rw [List.foldl_cons, h.files, hfiles]

/-- Visits that come to an end have the fates that the file system determines. -/
theorem carried_of_mapM {faults : Faults} {options : Options} {visits : List Visit}
    {outcomes : List Outcome} {w w' : World}
    (h : visits.mapM (Visit.act (fun path => processOne faults options path none) unlistable) w =
      .ok outcomes w') :
    Carried faults options visits w outcomes w' := by
  induction visits generalizing outcomes w with
  | nil =>
    cases h
    exact ⟨fun c => List.not_mem_nil, rfl, rfl, rfl⟩
  | cons visit visits ih =>
    rcases Action.mapM_cons_eq_ok_iff.1 h with ⟨o, os, w₁, hfirst, hlater, rfl⟩
    cases visit with
    | file path =>
      rcases fate_of_processOne hfirst with ⟨hpath, hfate⟩
      exact .cons (fun c h => nomatch h) hpath hfate (files_of_processOne hfirst) (ih hlater)
    | unlistable reason =>
      cases hfirst
      exact .cons (fun c h => nomatch h) rfl rfl rfl (ih hlater)
    | crash c => cases hfirst

/-- A batch that ends is the list of visits that its plan tells, each with its fate. -/
theorem carried_of_run {faults : Faults} {options : Options} {suffix : Suffix}
    {names : List FileName} (hnames : names ≠ []) {input : Input} {s : Summary} {w w' : World}
    (h : run faults options suffix names input w = .ok s w') :
    Carried faults options (w.files.planNames faults suffix names) w s.outcomes w' := by
  exact carried_of_mapM ((run_eq_ok_iff hnames).1 h)

namespace FileSystem

section Shapes

variable {fs fs' : FileSystem} (h : fs.shape = fs'.shape) (faults : Faults) (options : Options)
  (path : FileName)

include h

/-- Whether a file can be opened and read is seen by the shape. -/
theorem source_error_congr (e : FileError) :
    fs.source faults path = .error e ↔ fs'.source faults path = .error e := by
  have hshape (fs : FileSystem) :
      fs.source faults path = .error e ↔ fs.shape.source faults path = .error e := by
    rw [source_shape]
    cases fs.source faults path <;> simp only [Except.map, Except.error.injEq, reduceCtorEq]
  rw [hshape fs, h, ← hshape fs']

theorem writable_congr : fs.Writable faults path ↔ fs'.Writable faults path := by
  unfold Writable
  rw [← locate_shape fs, h, locate_shape fs']

/-- Whether a file is left out is seen by the shape. The options have no part in
    it. -/
theorem fate_eq_skipped_congr (options' : Options) :
    fs.fate faults options path = .skipped ↔ fs'.fate faults options' path = .skipped := by
  -- A document that can be had is handled or fails.
  have hskipped (fs : FileSystem) (options : Options) : fs.fate faults options path = .skipped ↔
      ∃ e, fs.source faults path = .error e ∧ e.isRecorded = false := by
    unfold fate
    rcases fs.source faults path with e | content
    · simp only [Except.error.injEq, exists_eq_left']
      cases e.isRecorded <;> simp only [if_true, if_false, reduceCtorEq, Bool.false_eq_true]
    · simp only [reduceCtorEq, false_and, exists_false, iff_false]
      split
      · exact fun h => nomatch h
      · split <;> exact fun h => nomatch h
  rw [hskipped, hskipped]
  exact exists_congr fun e => and_congr_left fun _ => source_error_congr h faults path e

end Shapes

end FileSystem

/-- Which visits are left out is known at the beginning, whatever the options are. -/
theorem Visit.map_fates_skipped (faults : Faults) (options options' : Options)
    {fs fs' : FileSystem} (h : fs.shape = fs'.shape) (visits : List Visit) :
    (fates faults options fs visits).map (fun f => decide (f = .skipped)) =
      visits.map fun visit => decide (visit.fate faults options' fs' = .skipped) := by
  induction visits generalizing fs with
  | nil => rfl
  | cons visit visits ih =>
    have hfate : visit.fate faults options fs = .skipped ↔
        visit.fate faults options' fs' = .skipped := by
      cases visit with
      | file path => exact FileSystem.fate_eq_skipped_congr h faults options path options'
      | unlistable reason => rfl
      | crash c => rfl
    rw [fates, List.map_cons, List.map_cons, ih ((shape_settled _ _ _ _).trans h),
      decide_eq_decide.2 hfate]

/-- The same files are left out of two batches with the same visits, if their file
    systems have the same shape. -/
theorem Carried.map_skipped {faults : Faults} {options options' : Options} {visits : List Visit}
    {w w' v v' : World} {outcomes outcomes' : List Outcome}
    (h : Carried faults options visits w outcomes w')
    (h' : Carried faults options' visits v outcomes' v') (hshape : w.files.shape = v.files.shape) :
    outcomes.map Outcome.skipped = outcomes'.map Outcome.skipped := by
  have hflag (o : Outcome) (fate : Fate) (hfate : o.fate? = some fate) :
      o.skipped = decide (fate = .skipped) := (Outcome.flags_of_fate? hfate).2.1
  rw [Outcome.map_flag hflag h.fates, Outcome.map_flag hflag h'.fates,
    Visit.map_fates_skipped faults options options' hshape,
    Visit.map_fates_skipped faults options' options' rfl]

end ConfIndent
