import ConfIndent.Proofs.Batch.Process
import ConfIndent.Proofs.FileName

/-!
# What Stops a Batch

Most of what can go wrong with a file becomes its outcome. A name that holds a null byte
does not: it is refused before there is a call that could fail. Nothing else about a file
stops a batch, so a visit to one ends unless its name does not allow it.

The files that a walk finds never have such names, for each was looked up before. A walk
that stops a batch does so by itself.

## Main definitions

* `Unnameable`: The name holds a null byte and is refused.
* `Visit.Ends`: The visit does not stop a batch.

## Theorems

* `exists_processOne_iff`: When a visit to a file ends.
* `exists_mapM_act_iff`: When a list of visits ends.
* `FileSystem.leadsTo_of_mem_plan`: What a walk finds was looked up.
-/

namespace ConfIndent

/-- The name holds a null byte, and no call on it fails for another reason first. -/
def Unnameable (faults : Faults) (path : FileName) : Prop :=
  0 ∈ path ∧ path ∉ faults.unopenable ∧ path ∉ faults.unreadable

instance decidableUnnameable (faults : Faults) (path : FileName) :
    Decidable (Unnameable faults path) :=
  inferInstanceAs (Decidable (_ ∧ _))

/-- Only a name that cannot be handed to the system makes opening crash. -/
theorem FileSystem.source_eq_nullInName_iff {fs : FileSystem} {faults : Faults}
    {path : FileName} : fs.source faults path = .error .nullInName ↔ Unnameable faults path := by
  unfold source Unnameable
  by_cases hopen : path ∈ faults.unopenable
  · simp only [hopen, if_true, Except.error.injEq, reduceCtorEq, not_true_eq_false, false_and,
      and_false]
  by_cases hread : path ∈ faults.unreadable
  · simp only [hopen, hread, if_true, if_false, Except.error.injEq, reduceCtorEq,
      not_true_eq_false, and_false]
  by_cases hnull : 0 ∈ path
  · simp only [hopen, hread, hnull, if_true, if_false, not_false_eq_true, and_self]
  · simp only [hopen, hread, hnull, if_false, false_and, iff_false]
    cases fs.read path <;> simp only [Except.error.injEq, reduceCtorEq, not_false_eq_true]

section Visits

variable {faults : Faults} (options : Options) {path : FileName}

/-- Such a name is not recorded but lets the crash through. -/
theorem processOne_of_unnameable (h : Unnameable faults path) (w : World) :
    processOne faults options path none w = .error .nullInName w := by
  have hsource : w.files.source faults path = .error .nullInName :=
    FileSystem.source_eq_nullInName_iff.2 h
  rw [processOne, processFile_of_error hsource]
  rfl

/-- A visit to a file ends if its name is one for the calls. -/
theorem exists_processOne_iff (w : World) :
    (∃ o w', processOne faults options path none w = .ok o w') ↔ ¬Unnameable faults path := by
  constructor
  · rintro ⟨o, w', h⟩ hnull
    rw [processOne_of_unnameable options hnull] at h
    cases h
  · intro hname
    rcases hsource : w.files.source faults path with e | content
    · rw [processOne, processFile_of_error hsource]
      cases e with
      | nullInName => exact absurd (FileSystem.source_eq_nullInName_iff.1 hsource) hname
      | skipped | unreadable | unwritable | incomparable | unprintable => exact ⟨_, _, rfl⟩
    · by_cases hfails : w.files.Fails faults options path content
      · rcases processOne_of_fails hsource hfails with ⟨reason, w', hone, -⟩
        exact ⟨_, w', hone⟩
      · rcases processOne_of_not_fails hsource hfails with ⟨w', hone, -⟩
        exact ⟨_, w', hone⟩

/-- The visit does not stop a batch. -/
def Visit.Ends (faults : Faults) : Visit → Prop
  | file path => ¬Unnameable faults path
  | unlistable _ => True
  | crash _ => False

/-- A visit comes to an end if it is no crash and its file can be named. -/
theorem exists_act_iff (visit : Visit) (w : World) :
    (∃ o w', visit.act (fun path => processOne faults options path none) unlistable w =
      .ok o w') ↔ visit.Ends faults := by
  cases visit with
  | file path => exact exists_processOne_iff options w
  | unlistable reason => exact iff_of_true ⟨_, _, rfl⟩ trivial
  | crash c => exact iff_of_false (fun ⟨_, _, h⟩ => nomatch h) not_false

/-- A list of visits ends if each of them does. Whether it does is known from the names
    alone. -/
theorem exists_mapM_act_iff (visits : List Visit) (w : World) :
    (∃ outcomes w',
      visits.mapM (Visit.act (fun path => processOne faults options path none) unlistable) w =
        .ok outcomes w') ↔ ∀ visit ∈ visits, visit.Ends faults := by
  induction visits generalizing w with
  | nil => exact iff_of_true ⟨[], w, rfl⟩ fun visit hvisit => absurd hvisit List.not_mem_nil
  | cons visit visits ih =>
    rw [List.forall_mem_cons, ← exists_act_iff options visit w]
    constructor
    · rintro ⟨outcomes, w', h⟩
      rcases Action.mapM_cons_eq_ok_iff.1 h with ⟨o, os, w₁, hfirst, hlater, -⟩
      exact ⟨⟨o, w₁, hfirst⟩, (ih w₁).1 ⟨os, w', hlater⟩⟩
    · rintro ⟨⟨o, w₁, hfirst⟩, hends⟩
      rcases (ih w₁).2 hends with ⟨os, w', hlater⟩
      exact ⟨o :: os, w', Action.mapM_cons_eq_ok_iff.2 ⟨o, os, w₁, hfirst, hlater, rfl⟩⟩

end Visits

namespace FileSystem

variable {fs : FileSystem} {faults : Faults} {suffix : Suffix} {path : FileName}

/-- A path that passes the test leads to a file. -/
theorem leadsTo_of_isConf (h : fs.isConf faults suffix path = .ok true) :
    ∃ content, fs.leadsTo faults path.tidy = .ok (some (.file content)) := by
  unfold isConf at h
  rcases hleads : fs.leadsTo faults path.tidy with c | _ | _ | content | target
  · rw [hleads] at h
    cases h
  · rw [hleads] at h
    cases h
  · rw [hleads] at h
    cases h
  · exact ⟨content, rfl⟩
  · rw [hleads] at h
    cases h

/-- A file that a walk visits was looked up by the path that it is visited by. -/
theorem leadsTo_of_mem_planWithin {depth : Nat} {directory : FileName}
    (h : .file path ∈ fs.planWithin faults suffix depth directory) :
    ∃ content, fs.leadsTo faults path.tidy = .ok (some (.file content)) := by
  induction depth generalizing directory with
  | zero => exact absurd h List.not_mem_nil
  | succ depth ih =>
    rw [planWithin] at h
    rcases hlisting : fs.listing faults directory with c | (reason | entries)
    · rw [hlisting] at h
      cases List.mem_singleton.1 h
    · rw [hlisting] at h
      cases List.mem_singleton.1 h
    · simp only [hlisting, List.mem_append, List.mem_flatMap] at h
      rcases h with ⟨name, -, h⟩ | ⟨name, -, h⟩
      · unfold planFile at h
        split at h
        · rename_i hconf
          cases List.mem_singleton.1 h
          exact leadsTo_of_isConf hconf
        · exact absurd h List.not_mem_nil
        · cases List.mem_singleton.1 h
      · split at h
        · exact absurd h List.not_mem_nil
        · exact ih h

theorem leadsTo_of_mem_plan {root : FileName} (h : .file path ∈ fs.plan faults suffix root) :
    ∃ content, fs.leadsTo faults path.tidy = .ok (some (.file content)) :=
  leadsTo_of_mem_planWithin h

/-- No path that a walk yields holds a null byte. -/
theorem null_not_mem_of_mem_plan {root : FileName} (h : .file path ∈ fs.plan faults suffix root) :
    0 ∉ path := by
  rcases leadsTo_of_mem_plan h with ⟨content, hleads⟩
  intro hnull
  rw [leadsTo, if_pos ((FileName.mem_tidy (by decide) (by decide)).2 hnull)] at hleads
  cases hleads

/-- A file that a walk visits stands for itself if its path is given to a batch. -/
theorem planName_of_mem_plan {root : FileName} (h : .file path ∈ fs.plan faults suffix root) :
    fs.planName faults suffix path = [.file path] := by
  rcases leadsTo_of_mem_plan h with ⟨content, hleads⟩
  have hdirectory : fs.isDirectory faults path.tidy = .ok false := by
    rw [isDirectory, hleads]
    rfl
  rw [planName, hdirectory]

end FileSystem

end ConfIndent
