import ConfIndent.Proofs.Batch.Crash
import ConfIndent.Proofs.Batch.Walk

/-!
# A Directory Means Its Files

A batch that is given a directory looks for files while it writes to those it found
already. One that is given the files by their paths looks them up one by one. They come
to the same: the plan of the walk is known from the shape of the file system, which no
visit changes, and each path it tells was looked up as a batch would look it up.

That is so as long as the walk goes to its end. A walk that crashes takes the batch with
it, and the files it would have come to are not visited. Those before are, as if they had
been given, but nothing is told of them.

## Main definitions

* `BreaksOff`: A walk yields the paths and then crashes.

## Theorems

* `FileSystem.planNames_of_mem_plan`: Paths that a walk yields stand for themselves.
* `breaksOff_of_plan`: A walk that crashes yields some paths before.
* `run_directory`: A batch of a directory is one of the files in it.
* `run_directory_longTarget`: A link to a long name keeps a batch from telling about the
  files before it.
-/

namespace ConfIndent

open Bytes

/-- Whatever is done about files and about directories that cannot be listed, a walk does
    it for the paths in turn and then crashes. -/
def BreaksOff (faults : Faults) (suffix : Suffix) (root : FileName) (w : World)
    (paths : List FileName) (c : Crash) : Prop :=
  ∀ {β : Type} (visit : FileName → Action Crash β), (∀ path, KeepsShape (visit path)) →
    ∀ passOver : SystemError → β,
      walk faults suffix visit passOver root w = (paths.mapM visit >>= fun _ => throw c) w

/-- Paths that a walk yields stand for themselves. -/
theorem FileSystem.planNames_of_mem_plan {fs : FileSystem} {faults : Faults} {suffix : Suffix}
    {root : FileName} {paths : List FileName}
    (h : ∀ path ∈ paths, .file path ∈ fs.plan faults suffix root) :
    fs.planNames faults suffix paths = paths.map .file := by
  induction paths with
  | nil => rfl
  | cons path paths ih =>
    rw [planNames, List.flatMap_cons, planName_of_mem_plan (h path List.mem_cons_self)]
    change _ :: fs.planNames faults suffix paths = _
    rw [ih fun path' hpath' => h path' (List.mem_cons_of_mem _ hpath'), List.map_cons]

namespace Visit

/-- The file that is visited. -/
def file? : Visit → Option FileName
  | file path => some path
  | unlistable _ => none
  | crash _ => none

/-- Visits of which nothing is noted and none is a crash are visits to files. -/
theorem eq_map_file {visits : List Visit} (hcrash : ∀ c, crash c ∉ visits)
    (hnoted : noted (visits.filterMap found?) = []) :
    visits = (yielded (visits.filterMap found?)).map file := by
  induction visits with
  | nil => rfl
  | cons visit visits ih =>
    have hrest : ∀ c, crash c ∉ visits := fun c hc => hcrash c (List.mem_cons_of_mem _ hc)
    cases visit with
    | file path => exact congrArg (file path :: ·) (ih hrest hnoted)
    | unlistable reason => cases hnoted
    | crash c => exact absurd List.mem_cons_self (hcrash c)

-- A list of visits is told up to the first crash.
theorem exists_of_mapM_found {visits : List Visit} {c : Crash}
    (h : visits.mapM found = .error c) :
    ∃ before after, visits = before ++ crash c :: after ∧ ∀ c', crash c' ∉ before := by
  induction visits with
  | nil => cases h
  | cons visit visits ih =>
    have hstep (x : Except SystemError FileName) (hx : visit.found = .ok x)
        (hnone : ∀ c', visit ≠ crash c') :
        ∃ before after, visit :: visits = before ++ crash c :: after ∧
          ∀ c', crash c' ∉ before := by
      have hrest : visits.mapM found = .error c := by
        rw [List.mapM_cons, hx] at h
        rcases hfound : visits.mapM found with e | rest
        · rw [hfound] at h
          exact h
        · rw [hfound] at h
          cases h
      rcases ih hrest with ⟨before, after, rfl, hbefore⟩
      refine ⟨visit :: before, after, rfl, ?_⟩
      intro c' hc'
      rcases List.mem_cons.1 hc' with hc' | hc'
      · exact hnone c' hc'.symm
      · exact hbefore c' hc'
    cases visit with
    | file path => exact hstep (.ok path) rfl fun c' h => nomatch h
    | unlistable reason => exact hstep (.error reason) rfl fun c' h => nomatch h
    | crash c' =>
      cases h
      exact ⟨[], visits, rfl, fun c => List.not_mem_nil⟩

/-- Visits up to a crash are visits to the files before it. -/
theorem mapM_act_crash {β : Type} (visit : FileName → Action Crash β)
    (passOver : SystemError → β) {before : List Visit} (hbefore : ∀ c, crash c ∉ before)
    (c : Crash) (after : List Visit) :
    (before ++ crash c :: after).mapM (act visit passOver) =
      (before.filterMap file?).mapM visit >>= fun _ => throw c := by
  induction before with
  | nil => rfl
  | cons v before ih =>
    have hrest := ih fun c' hc' => hbefore c' (List.mem_cons_of_mem _ hc')
    rw [List.cons_append, List.mapM_cons, hrest]
    cases v with
    | file path =>
      have hfile : (file path :: before).filterMap file? = path :: before.filterMap file? := rfl
      rw [hfile, List.mapM_cons]
      simp only [bind_assoc, pure_bind]
      rfl
    | unlistable reason =>
      have hnone : (unlistable reason :: before).filterMap file? = before.filterMap file? := rfl
      rw [hnone, act, pure_bind, bind_assoc]
      rfl
    | crash c' => exact absurd List.mem_cons_self (hbefore c')

end Visit

section Runs

variable {faults : Faults} {options : Options} {suffix : Suffix} {root : FileName} {w : World}

/-- A batch of a directory carries the plan of the walk out. -/
theorem run_root (hdirectory : Action.isDirectory faults root.tidy w = .ok true w) (input : Input) :
    run faults options suffix [root] input w =
      (Summary.mk <$> (w.files.plan faults suffix root).mapM
        (Visit.act (fun path => processOne faults options path none) unlistable)) w := by
  rw [isDirectory_run, Action.answer_eq_ok_iff] at hdirectory
  rw [run_eq faults options suffix (List.cons_ne_nil _ _) input w
    (keepsShape_processOne faults options), FileSystem.planNames, List.flatMap_singleton,
    FileSystem.planName, hdirectory.1]

/-- A batch of paths that a walk yields visits them. -/
theorem run_yielded {paths : List FileName} (hne : paths ≠ [])
    (h : ∀ path ∈ paths, .file path ∈ w.files.plan faults suffix root) (input : Input) :
    run faults options suffix paths input w =
      (Summary.mk <$> paths.mapM fun path => processOne faults options path none) w := by
  rw [run_eq faults options suffix hne input w (keepsShape_processOne faults options),
    FileSystem.planNames_of_mem_plan h, List.mapM_map]
  rfl

/-- A walk that crashes yields some paths before. -/
theorem breaksOff_of_plan {before after : List Visit} {c : Crash}
    (hplan : w.files.plan faults suffix root = before ++ .crash c :: after)
    (hbefore : ∀ c', .crash c' ∉ before) :
    BreaksOff faults suffix root w (before.filterMap Visit.file?) c := by
  intro β visit hvisit passOver
  rw [(agree_walk hvisit passOver faults suffix root w rfl).1, hplan,
    Visit.mapM_act_crash visit passOver hbefore]

/-- A batch of a directory that can be listed throughout is a batch of the files that a
    walk of it yields. If the walk crashes so does the batch, once it has visited what the
    walk has yielded till then. -/
theorem run_directory (hdirectory : Action.isDirectory faults root.tidy w = .ok true w)
    (input : Input) :
    (∀ found, walkFiles faults suffix root w = .ok found w → noted found = [] →
      yielded found ≠ [] →
      run faults options suffix [root] input w =
        run faults options suffix (yielded found) input w) ∧
    ∀ c, walkFiles faults suffix root w = .error c w →
      ∃ paths w', BreaksOff faults suffix root w paths c ∧
        run faults options suffix [root] input w = .error c w' ∧
        (paths ≠ [] → ∃ s, run faults options suffix paths input w = .ok s w') := by
  constructor
  · intro found hwalk hnoted hne
    rw [walkFiles_run, Action.answer_eq_ok_iff, mapM_found_eq_ok_iff] at hwalk
    rcases hwalk with ⟨⟨hcrash, hfound⟩, -⟩
    have hplan : w.files.plan faults suffix root = (yielded found).map .file := by
      rw [hfound] at hnoted ⊢
      exact Visit.eq_map_file hcrash hnoted
    have hmem : ∀ path ∈ yielded found, .file path ∈ w.files.plan faults suffix root := by
      intro path hpath
      rw [hplan]
      exact List.mem_map_of_mem hpath
    rw [run_root hdirectory, run_yielded hne hmem, hplan, List.mapM_map]
    rfl
  · intro c hwalk
    rw [walkFiles_run, Action.answer_eq_error_iff] at hwalk
    rcases Visit.exists_of_mapM_found hwalk.1 with ⟨before, after, hplan, hbefore⟩
    have hmem : ∀ path ∈ before.filterMap Visit.file?,
        .file path ∈ w.files.plan faults suffix root := by
      intro path hpath
      rcases List.mem_filterMap.1 hpath with ⟨visit, hvisit, hfile⟩
      rw [hplan]
      cases visit with
      | file path' =>
        cases hfile
        exact List.mem_append_left _ hvisit
      | unlistable reason => cases hfile
      | crash c' => cases hfile
    -- The files before the crash are visited, for their names were looked up.
    have hends : ∀ visit ∈ (before.filterMap Visit.file?).map Visit.file, visit.Ends faults := by
      intro visit hvisit
      rcases List.mem_map.1 hvisit with ⟨path, hpath, rfl⟩
      exact fun hname => FileSystem.null_not_mem_of_mem_plan (hmem path hpath) hname.1
    rcases (exists_mapM_act_iff options _ w).2 hends with ⟨outcomes, w', hvisits⟩
    rw [List.mapM_map] at hvisits
    refine ⟨before.filterMap Visit.file?, w', breaksOff_of_plan hplan hbefore, ?_, ?_⟩
    · rw [run_root hdirectory, hplan, Visit.mapM_act_crash _ _ hbefore, map_eq_pure_bind,
        bind_assoc]
      exact Action.bind_of_ok hvisits
    · intro hne
      refine ⟨⟨outcomes⟩, ?_⟩
      rw [run_yielded hne hmem, map_eq_pure_bind]
      exact Action.bind_of_ok hvisits

end Runs

/-- A file is found by its name and by a link further down. It is written in between, and
    the batch of the directory does not mind. -/
theorem run_directory_linked :
    let w : World := { files := {
      entries := [([ofAscii "d"], .directory),
        ([ofAscii "d", ofAscii "a.conf"], .file (ofAscii "  a\n")),
        ([ofAscii "d", ofAscii "s"], .directory),
        ([ofAscii "d", ofAscii "s", ofAscii "b.conf"], .link (ofAscii "../a.conf"))]
      workDir := [] } }
    let found : List (Except SystemError FileName) :=
      [.ok (ofAscii "d/a.conf"), .ok (ofAscii "d/s/b.conf")]
    Action.isDirectory {} (FileName.tidy (ofAscii "d")) w = .ok true w ∧
      walkFiles {} (some (ofAscii ".conf")) (ofAscii "d") w = .ok found w ∧
      noted found = [] ∧ yielded found = [ofAscii "d/a.conf", ofAscii "d/s/b.conf"] ∧
      run {} { write := true } (some (ofAscii ".conf")) [ofAscii "d"] .broken w =
        run {} { write := true } (some (ofAscii ".conf")) (yielded found) .broken w := by
  intro w found
  have hdirectory : Action.isDirectory {} (FileName.tidy (ofAscii "d")) w = .ok true w := by
    decide +kernel
  have hwalk : walkFiles {} (some (ofAscii ".conf")) (ofAscii "d") w = .ok found w := by
    decide +kernel
  have hyielded : yielded found = [ofAscii "d/a.conf", ofAscii "d/s/b.conf"] := rfl
  refine ⟨hdirectory, hwalk, rfl, hyielded, ?_⟩
  refine (run_directory hdirectory .broken).1 found hwalk rfl ?_
  rw [hyielded]
  exact List.cons_ne_nil _ _

/-- A directory with a file and, further down, a link to a name too long to be looked
    up. -/
def longTargetBelow : World where
  files := {
    entries := [([ofAscii "d"], .directory),
      ([ofAscii "d", ofAscii "a.conf"], .file (ofAscii "  a\n")),
      ([ofAscii "d", ofAscii "s"], .directory),
      ([ofAscii "d", ofAscii "s", ofAscii "x.conf"], .link (List.replicate 256 97))]
    workDir := [] }

/-- The walk yields the file before it crashes at the link. A batch of the file tells
    what came of it. A batch of the directory writes the file as well and tells
    nothing. -/
theorem run_directory_longTarget :
    let c : Crash := .system ⟨.nameTooLong, some (ofAscii "d/s/x.conf")⟩
    let s : Summary := ⟨[{ path := ofAscii "d/a.conf", changed := true }]⟩
    ∃ w', BreaksOff {} (some (ofAscii ".conf")) (ofAscii "d") longTargetBelow
        [ofAscii "d/a.conf"] c ∧
      run {} { write := true } (some (ofAscii ".conf")) [ofAscii "d/a.conf"] .broken
        longTargetBelow = .ok s w' ∧
      run {} { write := true } (some (ofAscii ".conf")) [ofAscii "d"] .broken
        longTargetBelow = .error c w' := by
  intro c s
  let w' : World := { longTargetBelow with
    files := longTargetBelow.files.put [ofAscii "d", ofAscii "a.conf"] (.file (ofAscii "\ta\n")) }
  have hplan : longTargetBelow.files.plan {} (some (ofAscii ".conf")) (ofAscii "d") =
      [.file (ofAscii "d/a.conf")] ++ .crash c :: [] := by
    decide +kernel
  refine ⟨w', ?_, by decide +kernel, by decide +kernel⟩
  refine breaksOff_of_plan hplan ?_
  intro c' hc'
  cases List.mem_singleton.1 hc'

end ConfIndent
