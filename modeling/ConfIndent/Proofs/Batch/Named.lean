import ConfIndent.Proofs.Batch.Unforeseen
import ConfIndent.Proofs.FileSystem.Tidy

/-!
# Names That Stand for Themselves

A name that leads to no directory stands for the file of that name, and for nothing else. It
adds a single outcome, under the name as it was written, and no file is changed but the one
that it leads to. If it leads to none, it is left out, and what is in the files makes no
difference to that.

Whether a name leads to a directory is asked of its tidy form, while the file is opened by
the name as it was written. For most names the answers are the same. Two kinds are mistaken
for the name of a directory: the empty name, which leads nowhere and is tidied to the current
directory, and a name that is too long as it is written but not when it is tidied. Such a
name stands for all the files that a walk finds there.

## Main definitions

* `FileSystem.NamesDirectory`: The name leads to a directory as it is written.
* `FileSystem.Mistaken`: The name does not, and is taken for one that does.
* `FileSystem.LeadsToNoFile`: There is no file of that name.
* `StandsForItself`: What handling a name comes to that is not taken for a directory.

## Theorems

* `FileSystem.isDirectory_iff_mistaken`: Which names are mistaken.
* `standsForItself_of_not_directory`: All others stand for themselves.
* `run_touches_named`: What a name adds to a batch, and what it leaves alone.
* `run_emptyName`: The empty name stands for all files below the current directory.
-/

namespace ConfIndent

open Bytes

namespace FileSystem

/-- The name leads to a directory as it is written. -/
def NamesDirectory (fs : FileSystem) (name : FileName) : Prop :=
  0 ∉ name ∧ fs.stat name = .ok .directory

/-- The name is refused as it is written, being empty or too long, and its tidy form leads to a
    directory. -/
def Mistaken (fs : FileSystem) (faults : Faults) (name : FileName) : Prop :=
  (name = [] ∨ maxName ≤ name.length) ∧ 0 ∉ name ∧ faults.stat fs name.tidy = .ok .directory

/-- The name leads to no file, and is none that can be opened all the same. -/
def LeadsToNoFile (fs : FileSystem) (faults : Faults) (name : FileName) : Prop :=
  name ∉ faults.unreadable ∧ ∀ content, fs.stat name ≠ .ok (.file content)

instance decidableNamesDirectory (fs : FileSystem) (name : FileName) :
    Decidable (fs.NamesDirectory name) :=
  inferInstanceAs (Decidable (_ ∧ _))

instance decidableMistaken (fs : FileSystem) (faults : Faults) (name : FileName) :
    Decidable (fs.Mistaken faults name) :=
  inferInstanceAs (Decidable (_ ∧ _))

variable {fs : FileSystem} {faults : Faults} {options : Options} {name : FileName}

/-- A name leads to a directory if it can be looked up and there is one. -/
theorem isDirectory_eq_true_iff :
    fs.isDirectory faults name.tidy = .ok true ↔
      0 ∉ name ∧ faults.stat fs name.tidy = .ok .directory := by
  have hnull : 0 ∈ name.tidy ↔ 0 ∈ name := FileName.mem_tidy (by decide) (by decide)
  by_cases h : 0 ∈ name
  · rw [isDirectory, leadsTo, if_pos (hnull.2 h)]
    exact iff_of_false (fun h => Bool.false_ne_true (Except.ok.inj h)) fun hnot => hnot.1 h
  rw [isDirectory, leadsTo, if_neg (mt hnull.1 h), and_iff_right h, ← Faults.probe_eq_some_iff]
  rcases faults.probe fs name.tidy with c | e
  · simp only [Except.map, reduceCtorEq]
  · simp only [Except.map, Except.ok.injEq, decide_eq_true_eq]

/-- A name that leads to no directory is taken for one that does if it is mistaken. -/
theorem isDirectory_iff_mistaken (h : ¬fs.NamesDirectory name) :
    fs.isDirectory faults name.tidy = .ok true ↔ fs.Mistaken faults name := by
  rw [isDirectory_eq_true_iff, Mistaken]
  refine (and_iff_right_of_imp ?_).symm
  rintro ⟨hnull, hstat⟩
  -- Any other name would lead to the directory without being tidied.
  refine Decidable.byContradiction fun hplain => h ⟨hnull, ?_⟩
  rw [not_or, Nat.not_le] at hplain
  exact (stat_tidy_iff hplain.1 hplain.2).1 (Faults.stat_of_ok hstat)

/-- A name of too many solidi is refused, but its tidy form is the root. -/
example : (empty []).Mistaken {} (List.replicate maxName slash) := by decide +kernel

/-- A name that leads to no file is left out. -/
theorem source_of_leadsToNoFile (hname : ¬Unnameable faults name)
    (h : fs.LeadsToNoFile faults name) :
    ∃ c, fs.source faults name = .error (.skipped name ⟨c, some name⟩) := by
  unfold source
  by_cases hopen : name ∈ faults.unopenable
  · rw [if_pos hopen]
    exact ⟨.denied, rfl⟩
  have hnull : 0 ∉ name := fun hnull => hname ⟨hnull, hopen, h.1⟩
  rw [if_neg hopen, if_neg h.1, if_neg hnull, read]
  rcases hstat : fs.stat name with c | _ | content | _
  · exact ⟨c, rfl⟩
  · exact ⟨.isDirectory, rfl⟩
  · exact absurd hstat (h.2 content)
  · exact ⟨.isDirectory, rfl⟩

/-- What a visit changes is the file that its path leads to. -/
theorem locate_of_settled_ne {l : Location}
    (h : (fs.settled faults options name).get? l ≠ fs.get? l) :
    fs.locate .read name = .ok (.taken l) ∧ ∃ content, fs.get? l = some (.file content) := by
  unfold settled at h
  split at h
  · have hopens : fs.Opens faults name l :=
      Classical.byContradiction fun hnot => h (get?_stored_of_not_opens hnot)
    refine ⟨hopens.2.2.2, ?_⟩
    rcases hsource : fs.source faults name with e | content
    · simp only [stored, hsource, ne_eq, not_true_eq_false] at h
    · rcases opens_of_source hsource with ⟨k, hopens', hget⟩
      have hsame := hopens'.2.2.2.symm.trans hopens.2.2.2
      rw [Except.ok.injEq, Spot.taken.injEq] at hsame
      rw [← hsame]
      exact ⟨content, hget⟩
  · exact absurd rfl h

end FileSystem

/-- What handling a name comes to that is not taken for a directory, in all worlds with files
    of one shape. -/
structure StandsForItself (faults : Faults) (options : Options) (suffix : Suffix) (w : World)
    (name : FileName) : Prop where
  /-- It stops a batch if it is no name for a call, or it cannot be told what it leads to. -/
  unforeseen_iff : Unforeseen faults suffix w name ↔
    Unnameable faults name ∨ 0 ∉ name ∧ w.files.Obscure faults name.tidy
  /-- If it does, nothing is changed. -/
  stops : Unforeseen faults suffix w name →
    ∃ c, ∀ v : World, v.files.shape = w.files.shape →
      runName faults options suffix name v = .error c v
  /-- Otherwise there is a single outcome, under the name as it was written, and no file is
      changed but the one that it leads to. -/
  one_outcome : ¬Unforeseen faults suffix w name →
    ∀ v : World, v.files.shape = w.files.shape →
      ∃ o v', runName faults options suffix name v = .ok [o] v' ∧ o.path = name ∧
        ∀ l, v'.files.get? l ≠ v.files.get? l →
          w.files.locate .read name = .ok (.taken l) ∧
            ∃ content, w.files.get? l = some (.file content)
  /-- If it leads to no file, it is left out whatever is in the files. That is logged and
      nothing else is done. -/
  left_out : ¬Unforeseen faults suffix w name → w.files.LeadsToNoFile faults name →
    ∃ c, ∀ v : World, v.files.shape = w.files.shape →
      runName faults options suffix name v =
        .ok [{ path := name, skipped := true }] { v with
          log := v.log ++
            [⟨.warning, "skipping " ++ (FileError.skipped name ⟨c, some name⟩).message⟩] }

section Names

variable {faults : Faults} {options : Options} {suffix : Suffix} {name : FileName} {w : World}

/-- A name that leads to no directory is handled as a file. -/
theorem runName_of_not_directory (h : w.files.isDirectory faults name.tidy = .ok false) :
    runName faults options suffix name w =
      (processOne faults options name none >>= fun o => pure [o]) w := by
  have hanswer : Action.isDirectory faults name.tidy w = .ok false w := by
    rw [isDirectory_run, h]
    rfl
  rw [runName, Action.bind_of_ok hanswer]
  rfl

/-- Nothing is done about a name if it cannot be told what it leads to. -/
theorem runName_of_error {c : Crash} (h : w.files.isDirectory faults name.tidy = .error c) :
    runName faults options suffix name w = .error c w := by
  have hanswer : Action.isDirectory faults name.tidy w = .error c w := by
    rw [isDirectory_run, h]
    rfl
  rw [runName, Action.bind_of_error hanswer]

section NotDirectory

variable (h : w.files.isDirectory faults name.tidy ≠ .ok true)

include h

/-- A name that leads to no directory is unforeseen if it cannot be opened or looked up at all. -/
theorem unforeseen_iff_of_not_directory :
    Unforeseen faults suffix w name ↔
      Unnameable faults name ∨ 0 ∉ name ∧ w.files.Obscure faults name.tidy := by
  constructor
  · intro hstop
    cases hstop with
    | unnameable hname => exact .inl hname
    | obscure hnull hlookup => exact .inr ⟨hnull, hlookup⟩
    | walk hdirectory hwalk =>
      rw [isDirectory_run, Action.answer_eq_ok_iff] at hdirectory
      exact absurd hdirectory.1 h
  · rintro (hname | ⟨hnull, hlookup⟩)
    · exact .unnameable hname
    · exact .obscure hnull hlookup

/-- A name that stops no batch is known to be no directory, in all worlds with files of one
    shape. -/
theorem isDirectory_of_foreseen (hgoes : ¬Unforeseen faults suffix w name) {v : World}
    (hv : v.files.shape = w.files.shape) : v.files.isDirectory faults name.tidy = .ok false := by
  rw [← FileSystem.isDirectory_shape, hv, FileSystem.isDirectory_shape]
  rcases hdirectory : w.files.isDirectory faults name.tidy with c | _ | _
  · exact absurd (.inr (FileSystem.isDirectory_eq_error_iff.1 ⟨c, hdirectory⟩))
      (mt (unforeseen_iff_of_not_directory h).2 hgoes)
  · rfl
  · exact absurd hdirectory h

/-- An unforeseen name crashes in every file system of the shape, and changes nothing there. -/
theorem runName_of_unforeseen (hstop : Unforeseen faults suffix w name) :
    ∃ c, ∀ v : World, v.files.shape = w.files.shape →
      runName faults options suffix name v = .error c v := by
  rcases (unforeseen_iff_of_not_directory h).1 hstop with hname | hobscure
  · refine ⟨.nullInName, fun v _ => ?_⟩
    rw [runName_of_not_directory (FileSystem.isDirectory_of_null hname.1),
      Action.bind_of_error (processOne_of_unnameable options hname v)]
  · rcases FileSystem.isDirectory_eq_error_iff.2 hobscure with ⟨c, hdirectory⟩
    refine ⟨c, fun v hv => runName_of_error ?_⟩
    rw [← FileSystem.isDirectory_shape, hv, FileSystem.isDirectory_shape, hdirectory]

/-- A foreseen name that leads to no directory has one outcome. -/
theorem runName_of_foreseen (hgoes : ¬Unforeseen faults suffix w name) {v : World}
    (hv : v.files.shape = w.files.shape) :
    ∃ o v', processOne faults options name none v = .ok o v' ∧
      runName faults options suffix name v = .ok [o] v' := by
  have hname : ¬Unnameable faults name := fun hname => hgoes (.unnameable hname)
  rcases (exists_processOne_iff options v).2 hname with ⟨o, v', hone⟩
  refine ⟨o, v', hone, ?_⟩
  rw [runName_of_not_directory (isDirectory_of_foreseen h hgoes hv), Action.bind_of_ok hone]
  rfl

/-- A name that is not taken for a directory stands for itself. -/
theorem standsForItself_of_not_directory : StandsForItself faults options suffix w name where
  unforeseen_iff := unforeseen_iff_of_not_directory h
  stops := runName_of_unforeseen h
  one_outcome := by
    intro hgoes v hv
    rcases runName_of_foreseen h hgoes hv with ⟨o, v', hone, hrun⟩
    refine ⟨o, v', hrun, (fate_of_processOne hone).1, ?_⟩
    intro l hl
    rw [files_of_processOne hone] at hl
    rcases FileSystem.locate_of_settled_ne hl with ⟨hlocate, content, hget⟩
    rw [← FileSystem.locate_shape, hv, FileSystem.locate_shape] at hlocate
    exact ⟨hlocate, FileSystem.exists_file_of_shape hv hget⟩
  left_out := by
    intro hgoes hnone
    have hname : ¬Unnameable faults name := fun hname => hgoes (.unnameable hname)
    rcases FileSystem.source_of_leadsToNoFile hname hnone with ⟨c, hsource⟩
    refine ⟨c, fun v hv => ?_⟩
    rcases runName_of_foreseen h hgoes hv with ⟨o, v', hone, hrun⟩
    rw [processOne,
      processFile_of_error ((FileSystem.source_error_congr hv faults name _).2 hsource)] at hone
    cases hone
    exact hrun

end NotDirectory

/-- A batch handles its names one after the other. -/
theorem exists_mapM_of_run {names : List FileName} (hnames : names ≠ []) {input : Input}
    {s : Summary} {w' : World} (h : run faults options suffix names input w = .ok s w') :
    ∃ outcomes, names.mapM (runName faults options suffix) w = .ok outcomes w' ∧
      s.outcomes = outcomes.flatten := by
  rcases names with _ | ⟨first, names⟩
  · exact absurd rfl hnames
  · rcases Action.exists_of_bind h with ⟨outcomes, w₁, hmap, hpure⟩
    cases hpure
    exact ⟨outcomes, hmap, rfl⟩

/-- Handling names changes what is in the files and no more. -/
theorem shape_of_mapM_runName {names : List FileName} {outcomes : List (List Outcome)} {w' : World}
    (h : names.mapM (runName faults options suffix) w = .ok outcomes w') :
    w'.files.shape = w.files.shape := by
  have hagree := Agree.mapM (agree_runName faults options suffix
    (keepsShape_processOne faults options) w.files) names w rfl
  rw [hagree.1] at h
  exact hagree.2 outcomes w' h

/-- What a name adds to a batch can be told apart: the names before it have been handled, then
    it is handled, and then those behind it. -/
theorem exists_runName_of_run {before after : List FileName} {input : Input} {s : Summary}
    {w' : World} (h : run faults options suffix (before ++ name :: after) input w = .ok s w') :
    ∃ outcomes₁ outcomes outcomes₂ w₁ w₂,
      before.mapM (runName faults options suffix) w = .ok outcomes₁ w₁ ∧
        runName faults options suffix name w₁ = .ok outcomes w₂ ∧
        after.mapM (runName faults options suffix) w₂ = .ok outcomes₂ w' ∧
        s.outcomes = outcomes₁.flatten ++ outcomes ++ outcomes₂.flatten ∧
        w₁.files.shape = w.files.shape := by
  have hnames : before ++ name :: after ≠ [] :=
    List.append_ne_nil_of_right_ne_nil _ (List.cons_ne_nil _ _)
  rcases exists_mapM_of_run hnames h with ⟨all, hall, houtcomes⟩
  rcases mapM_append_ok.1 hall with ⟨outcomes₁, rest, w₁, hbefore, hrest, rfl⟩
  rcases Action.mapM_cons_eq_ok_iff.1 hrest with ⟨outcomes, outcomes₂, w₂, hname, hafter, rfl⟩
  refine ⟨outcomes₁, outcomes, outcomes₂, w₁, w₂, hbefore, hname, hafter, ?_,
    shape_of_mapM_runName hbefore⟩
  rw [houtcomes, List.flatten_append, List.flatten_cons, List.append_assoc]

/-- A name that leads to no directory stands for itself unless it is mistaken for one. A batch
    with such a name ends if none of its names stops it. The name then adds a single outcome,
    under the name as it was written, and no file is changed but the one that it leads to; if it
    leads to none it is left out. -/
theorem run_touches_named (hname : ¬w.files.NamesDirectory name) :
    (Action.isDirectory faults name.tidy w = .ok true w ↔ w.files.Mistaken faults name) ∧
      (¬w.files.Mistaken faults name →
        StandsForItself faults options suffix w name ∧
        ∀ before after input,
          ((∃ s w', run faults options suffix (before ++ name :: after) input w = .ok s w') ↔
            ∀ n ∈ before ++ name :: after, ¬Unforeseen faults suffix w n) ∧
          ∀ s w', run faults options suffix (before ++ name :: after) input w = .ok s w' →
            ∃ outcomes₁ o outcomes₂ w₁ w₂,
              before.mapM (runName faults options suffix) w = .ok outcomes₁ w₁ ∧
                runName faults options suffix name w₁ = .ok [o] w₂ ∧
                after.mapM (runName faults options suffix) w₂ = .ok outcomes₂ w' ∧
                s.outcomes = outcomes₁.flatten ++ o :: outcomes₂.flatten ∧ o.path = name ∧
                w₁.files.shape = w.files.shape ∧
                (∀ l, w₂.files.get? l ≠ w₁.files.get? l →
                  w.files.locate .read name = .ok (.taken l) ∧
                    ∃ content, w.files.get? l = some (.file content)) ∧
                (w.files.LeadsToNoFile faults name →
                  o.skipped = true ∧ w₂.files = w₁.files ∧ w₂.output = w₁.output)) := by
  have hmistaken : w.files.isDirectory faults name.tidy = .ok true ↔ w.files.Mistaken faults name :=
    FileSystem.isDirectory_iff_mistaken hname
  refine ⟨?_, ?_⟩
  · rw [isDirectory_run, Action.answer_eq_ok_iff, and_iff_left rfl, hmistaken]
  intro hplain
  have hitself : StandsForItself faults options suffix w name :=
    standsForItself_of_not_directory (mt hmistaken.1 hplain)
  refine ⟨hitself, fun before after input => ⟨exists_run_iff, ?_⟩⟩
  intro s w' hrun
  have hgoes : ¬Unforeseen faults suffix w name :=
    exists_run_iff.1 ⟨s, w', hrun⟩ name (List.mem_append_right _ List.mem_cons_self)
  rcases exists_runName_of_run hrun with
    ⟨outcomes₁, outcomes, outcomes₂, w₁, w₂, hbefore, hhandled, hafter, houtcomes, hshape⟩
  rcases hitself.one_outcome hgoes w₁ hshape with ⟨o, w₃, hone, hpath, htouches⟩
  rw [hone] at hhandled
  cases hhandled
  refine ⟨outcomes₁, o, outcomes₂, w₁, w₂, hbefore, hone, hafter, ?_, hpath, hshape, htouches, ?_⟩
  · rw [houtcomes, List.append_assoc, List.singleton_append]
  · intro hnone
    rcases hitself.left_out hgoes hnone with ⟨c, hskipped⟩
    rw [hskipped w₁ hshape] at hone
    cases hone
    exact ⟨rfl, rfl, rfl⟩

end Names

/-- A directory with a file that formatting changes and a link that leads nowhere. -/
def danglingLink : World where
  files := {
    entries := [([ofAscii "x.conf"], .file (ofAscii "  a\n")),
      ([ofAscii "l.conf"], .link (ofAscii "gone"))]
    workDir := [] }

/-- The link is left out behind a file that is written. -/
theorem run_touches_named_dangling :
    let options : Options := { write := true }
    let suffix : Suffix := some (ofAscii ".conf")
    let name := ofAscii "./l.conf"
    let s : Summary := ⟨[{ path := ofAscii "x.conf", changed := true },
      { path := name, skipped := true }]⟩
    ¬danglingLink.files.NamesDirectory name ∧ ¬danglingLink.files.Mistaken {} name ∧
      danglingLink.files.LeadsToNoFile {} name ∧
      ∃ (w' : World) (outcomes₁ outcomes₂ : List (List Outcome)) (o : Outcome) (w₁ w₂ : World),
        run {} options suffix [ofAscii "x.conf", name] .broken danglingLink = .ok s w' ∧
          runName {} options suffix name w₁ = .ok [o] w₂ ∧
          s.outcomes = outcomes₁.flatten ++ o :: outcomes₂.flatten ∧ o.path = name ∧
          o.skipped = true ∧ w₂.files = w₁.files ∧ w₂.output = w₁.output := by
  intro options suffix name s
  have hname : ¬danglingLink.files.NamesDirectory name := by decide +kernel
  have hplain : ¬danglingLink.files.Mistaken {} name := by decide +kernel
  have hmissing : danglingLink.files.stat name = .error .missing := by decide +kernel
  have hnone : danglingLink.files.LeadsToNoFile {} name := by
    refine ⟨List.not_mem_nil, fun content => ?_⟩
    rw [hmissing]
    exact fun h => nomatch h
  have hrun : run {} options suffix [ofAscii "x.conf", name] .broken danglingLink = .ok s
      { danglingLink with
        files := { danglingLink.files with
          entries := [([ofAscii "x.conf"], .file (ofAscii "\ta\n")),
            ([ofAscii "l.conf"], .link (ofAscii "gone"))] }
        log := [⟨.warning,
          "skipping ./l.conf: [Errno 2] No such file or directory: './l.conf'"⟩] } := by
    decide +kernel
  rcases ((run_touches_named hname).2 hplain).2 [ofAscii "x.conf"] [] .broken with ⟨-, hadds⟩
  rcases hadds s _ hrun with
    ⟨outcomes₁, o, outcomes₂, w₁, w₂, -, hone, -, houtcomes, hpath, -, -, hskipped⟩
  exact ⟨hname, hplain, hnone, _, outcomes₁, outcomes₂, o, w₁, w₂, hrun, hone, houtcomes, hpath,
    hskipped hnone⟩

/-- The empty name leads to nothing, and still a batch with it writes the file of the current
    directory. -/
theorem run_emptyName :
    oneFile.files.stat [] = .error .missing ∧
      run {} { write := true } (some (ofAscii ".conf")) [[]] .broken oneFile =
        .ok ⟨[{ path := ofAscii "x.conf", changed := true }]⟩
          { oneFile with files := { oneFile.files with
            entries := [([ofAscii "x.conf"], .file (ofAscii "\ta\n"))] } } := by
  decide +kernel

end ConfIndent
