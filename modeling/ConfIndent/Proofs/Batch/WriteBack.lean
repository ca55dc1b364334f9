import ConfIndent.Proofs.Batch.Process

/-!
# What a Batch Writes

A batch that writes back changes the content of files and nothing else, and it
changes exactly the files it reaches. Which these are is told without reference to
the batch: by the paths it comes to, looked at in the file system as it is before.

Many paths may lead to one file, by links or by being given twice. The second
visit finds the file formatted, and formatting it again has no effect, so the
number and the order of visits do not matter.

Being found by a walk is not enough to be written. A walk asks what a path leads
to and does not open it, and a file that cannot be opened is skipped.

## Main definitions

* `ComesTo`: The paths that a batch comes to.
* `Reaches`: The files that a batch opens.

## Theorems

* `comesTo_iff`: The paths of a batch are those of its plan.
* `run_writes`: A batch formats what it reaches and nothing else.
* `exists_found_unwritten`: A file that is found but not opened is left as it is.
-/

namespace ConfIndent

open Bytes

/-- A batch comes to a path: it was given the path, which leads to no directory,
    or it was given a directory and a walk finds the path there. -/
inductive ComesTo (faults : Faults) (suffix : Suffix) (names : List FileName) (w : World) :
    FileName → Prop where
  | given {path : FileName} (hpath : path ∈ names)
      (h : Action.isDirectory faults path.tidy w = .ok false w) : ComesTo faults suffix names w path
  | found {root path : FileName} {found : List (Except SystemError FileName)}
      (hroot : root ∈ names) (h : Action.isDirectory faults root.tidy w = .ok true w)
      (hwalk : walkFiles faults suffix root w = .ok found w) (hpath : .ok path ∈ found) :
      ComesTo faults suffix names w path

/-- A batch comes to a path that can be opened and leads to the location. -/
def Reaches (faults : Faults) (suffix : Suffix) (names : List FileName) (w : World)
    (l : Location) : Prop :=
  ∃ path, ComesTo faults suffix names w path ∧ path ∉ faults.unopenable ∧
    w.files.locate .read path = .ok (.taken l)

section Plans

variable {faults : Faults} {suffix : Suffix} {names : List FileName} {w : World}

/-- A walk that does not crash finds the files that its plan visits. -/
theorem mem_of_walkFiles {root path : FileName} {found : List (Except SystemError FileName)}
    (h : walkFiles faults suffix root w = .ok found w) :
    .ok path ∈ found ↔ .file path ∈ w.files.plan faults suffix root := by
  rw [walkFiles_run, Action.answer_eq_ok_iff, mapM_found_eq_ok_iff] at h
  rcases h with ⟨⟨-, rfl⟩, -⟩
  rw [List.mem_filterMap]
  constructor
  · rintro ⟨visit, hvisit, hfound⟩
    cases visit with
    | file path' =>
      cases hfound
      exact hvisit
    | unlistable reason => cases hfound
    | crash c => cases hfound
  · intro hvisit
    exact ⟨.file path, hvisit, rfl⟩

/-- The paths that a batch comes to are those that its plan visits, if the plan
    does not end in a crash. -/
theorem comesTo_iff (hcrash : ∀ c, Visit.crash c ∉ w.files.planNames faults suffix names)
    (path : FileName) :
    ComesTo faults suffix names w path ↔ .file path ∈ w.files.planNames faults suffix names := by
  rw [FileSystem.planNames, List.mem_flatMap]
  constructor
  · intro h
    cases h with
    | given hpath h =>
      rw [isDirectory_run, Action.answer_eq_ok_iff] at h
      refine ⟨path, hpath, ?_⟩
      rw [FileSystem.planName, h.1]
      exact List.mem_singleton_self _
    | found hroot h hwalk hpath =>
      rw [isDirectory_run, Action.answer_eq_ok_iff] at h
      refine ⟨_, hroot, ?_⟩
      rw [FileSystem.planName, h.1]
      exact (mem_of_walkFiles hwalk).1 hpath
  · rintro ⟨name, hname, hvisit⟩
    have hnone : ∀ c, Visit.crash c ∉ w.files.planName faults suffix name := by
      intro c hc
      exact hcrash c (List.mem_flatMap.2 ⟨name, hname, hc⟩)
    rw [FileSystem.planName] at hvisit hnone
    -- The plan tells how the name was taken: it crashes, is a path or is walked.
    rcases hanswer : w.files.isDirectory faults name.tidy with c | _ | _
    · rw [hanswer] at hnone
      exact absurd (List.mem_singleton_self _) (hnone c)
    · rw [hanswer] at hvisit
      cases List.mem_singleton.1 hvisit
      refine .given hname ?_
      rw [isDirectory_run, hanswer]
      rfl
    · rw [hanswer] at hvisit hnone
      have hwalk : walkFiles faults suffix name w =
          .ok ((w.files.plan faults suffix name).filterMap Visit.found?) w := by
        rw [walkFiles_run, Action.answer_eq_ok_iff, mapM_found_eq_ok_iff]
        exact ⟨⟨hnone, rfl⟩, rfl⟩
      refine .found hname ?_ hwalk ((mem_of_walkFiles hwalk).2 hvisit)
      rw [isDirectory_run, hanswer]
      rfl

-- In a batch without an error, what is reached is what some visit opens.
theorem reaches_iff {options : Options} {paths : List FileName} {outcomes : List Outcome}
    {w' : World} (hplan : w.files.planNames faults suffix names = paths.map Visit.file)
    (hvisited : Visited faults options paths w outcomes w') (l : Location) :
    Reaches faults suffix names w l ↔ ∃ path ∈ paths, w.files.Opens faults path l := by
  have hcrash : ∀ c, Visit.crash c ∉ w.files.planNames faults suffix names := by
    intro c hc
    rw [hplan] at hc
    rcases List.mem_map.1 hc with ⟨path, -, h⟩
    cases h
  have hmem (path : FileName) : ComesTo faults suffix names w path ↔ path ∈ paths := by
    rw [comesTo_iff hcrash, hplan]
    constructor
    · intro h
      rcases List.mem_map.1 h with ⟨path', hpath', h⟩
      cases h
      exact hpath'
    · exact List.mem_map_of_mem
  constructor
  · rintro ⟨path, hpath, hopen, hlocate⟩
    rw [hmem] at hpath
    rcases hvisited.readable path hpath hopen with ⟨hread, hnull⟩
    exact ⟨path, hpath, hopen, hread, hnull, hlocate⟩
  · rintro ⟨path, hpath, hopen, -, -, hlocate⟩
    exact ⟨path, (hmem path).2 hpath, hopen, hlocate⟩

end Plans

/-- A batch that writes back and meets no error leaves the shape of the file system
    alone. It formats the files it reaches, however often it comes to them, and no
    others. -/
theorem run_writes {faults : Faults} {options : Options} (hwrite : options.write = true)
    {suffix : Suffix} {names : List FileName} (hnames : names ≠ []) {input : Input} {s : Summary}
    {w w' : World} (hrun : run faults options suffix names input w = .ok s w')
    (herror : s.errorCount = 0) :
    w'.files.shape = w.files.shape ∧
    ∀ l content, w.files.get? l = some (.file content) →
      (Reaches faults suffix names w l →
        w'.files.get? l = some (.file (faults.format content))) ∧
      (¬Reaches faults suffix names w l → w'.files.get? l = some (.file content)) := by
  rcases exists_paths_of_run hnames hrun herror with ⟨paths, hplan, hvisited⟩
  have hfiles := hvisited.files
  rw [if_pos hwrite] at hfiles
  rw [hfiles]
  refine ⟨FileSystem.shape_foldl_rewritten faults paths w.files, ?_⟩
  intro l content hget
  rw [reaches_iff hplan hvisited]
  constructor
  · exact FileSystem.get?_foldl_of_opens hget
  · intro hnone
    rw [FileSystem.get?_foldl_of_not_opens, hget]
    intro path hpath hopens
    exact hnone ⟨path, hpath, hopens⟩

/-- A directory with a file, and a link to the file beside it. -/
def linkedFile : World where
  files := {
    entries := [([ofAscii "d"], .directory),
      ([ofAscii "d", ofAscii "x.conf"], .file (ofAscii "  a\n")),
      ([ofAscii "y.conf"], .link (ofAscii "d/x.conf"))]
    workDir := [] }

/-- The file is come to twice, once by a walk and once by the link. -/
theorem run_writes_twice :
    let names := [ofAscii "d", ofAscii "y.conf"]
    let s : Summary := ⟨[{ path := ofAscii "d/x.conf", changed := true },
      { path := ofAscii "y.conf" }]⟩
    let w' : World := { linkedFile with
      files := linkedFile.files.put [ofAscii "d", ofAscii "x.conf"] (.file (ofAscii "\ta\n")) }
    run {} { write := true } (some (ofAscii ".conf")) names .broken linkedFile = .ok s w' ∧
      s.errorCount = 0 ∧ w'.files.shape = linkedFile.files.shape ∧
      ∀ l content, linkedFile.files.get? l = some (.file content) →
        (Reaches {} (some (ofAscii ".conf")) names linkedFile l →
          w'.files.get? l = some (.file (Faults.format {} content))) ∧
        (¬Reaches {} (some (ofAscii ".conf")) names linkedFile l →
          w'.files.get? l = some (.file content)) := by
  intro names s w'
  have hrun : run {} { write := true } (some (ofAscii ".conf")) names .broken linkedFile =
      .ok s w' := by
    decide +kernel
  have herror : s.errorCount = 0 := by
    decide
  exact ⟨hrun, herror, run_writes rfl (List.cons_ne_nil _ _) hrun herror⟩

/-- A file that a walk finds is not written if it cannot be opened, and the batch
    takes that for no error. -/
theorem exists_found_unwritten :
    let faults : Faults := { unopenable := [ofAscii "d/x.conf"] }
    let l : Location := [ofAscii "d", ofAscii "x.conf"]
    ∃ s w' found,
      run faults { write := true } (some (ofAscii ".conf")) [ofAscii "d"] .broken linkedFile =
        .ok s w' ∧ s.errorCount = 0 ∧
      Action.isDirectory faults (FileName.tidy (ofAscii "d")) linkedFile = .ok true linkedFile ∧
      walkFiles faults (some (ofAscii ".conf")) (ofAscii "d") linkedFile = .ok found linkedFile ∧
      .ok (ofAscii "d/x.conf") ∈ found ∧
      linkedFile.files.locate .read (ofAscii "d/x.conf") = .ok (.taken l) ∧
      linkedFile.files.get? l = some (.file (ofAscii "  a\n")) ∧
      w'.files.get? l = some (.file (ofAscii "  a\n")) ∧
      faults.format (ofAscii "  a\n") ≠ ofAscii "  a\n" := by
  intro faults l
  refine ⟨⟨[{ path := ofAscii "d/x.conf", skipped := true }]⟩,
    { linkedFile with log := [⟨.warning,
      "skipping d/x.conf: [Errno 13] Permission denied: 'd/x.conf'"⟩] },
    [.ok (ofAscii "d/x.conf")], ?_⟩
  decide +kernel

end ConfIndent
