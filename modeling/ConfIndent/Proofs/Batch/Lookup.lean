import ConfIndent.Batch.World
import ConfIndent.Proofs.FileSystem.Shape

/-!
# Looking Names Up

What a name leads to is a question for the file system, and the machine may refuse to
answer. Most refusals are answers all the same, since they say that the name leads nowhere.
Those that say something else leave the question open. A name is obscure if it is met with
one of these, or if it is too long to be looked up at all.

Where a question is answered, the answer is that of the file system, so it is seen by the
shape.

## Main definitions

* `FileSystem.Obscure`: It cannot be told what a name leads to.

## Theorems

* `Faults.stat_of_ok`: An answer is that of the file system.
* `Faults.stat_shape`, `Faults.probe_shape`: What is answered is seen by the shape.
* `FileSystem.obscure_iff`: The refusals that leave the question open.
-/

namespace ConfIndent

namespace Faults

variable {faults : Faults} {fs : FileSystem} {name : FileName}

theorem stat_of_traceable (h : faults.untraceable.lookup name = none) :
    faults.stat fs name = fs.stat name := by
  rw [stat, h]

theorem stat_of_refused {c : Cause} (h : faults.untraceable.lookup name = some c) :
    faults.stat fs name = .error c := by
  rw [stat, h]

/-- An answer is that of the file system. -/
theorem stat_of_ok {e : Entry} (h : faults.stat fs name = .ok e) : fs.stat name = .ok e := by
  rcases hlookup : faults.untraceable.lookup name with _ | c
  · rwa [stat_of_traceable hlookup] at h
  · rw [stat_of_refused hlookup] at h
    cases h

@[simp] theorem stat_shape (faults : Faults) (fs : FileSystem) (name : FileName) :
    faults.stat fs.shape name = (faults.stat fs name).map Entry.shape := by
  rcases hlookup : faults.untraceable.lookup name with _ | c
  · rw [stat_of_traceable hlookup, stat_of_traceable hlookup, FileSystem.stat_shape]
  · rw [stat_of_refused hlookup, stat_of_refused hlookup]
    rfl

@[simp] theorem probe_shape (faults : Faults) (fs : FileSystem) (name : FileName) :
    faults.probe fs.shape name = (faults.probe fs name).map (Option.map Entry.shape) := by
  rw [probe, probe, stat_shape]
  cases faults.stat fs name with
  | ok e => rfl
  | error c =>
    simp only [Except.map]
    split <;> rfl

/-- What is found is what the name leads to. -/
theorem probe_eq_some_iff {e : Entry} :
    faults.probe fs name = .ok (some e) ↔ faults.stat fs name = .ok e := by
  rw [probe]
  rcases faults.stat fs name with c | found
  · refine iff_of_false ?_ fun h => nomatch h
    dsimp only
    split <;> exact fun h => nomatch h
  · rw [Except.ok.injEq, Except.ok.injEq, Option.some_inj]

end Faults

namespace FileSystem

/-- It cannot be told what the name leads to. -/
inductive Obscure (fs : FileSystem) (faults : Faults) (name : FileName) : Prop where
  /-- To look it up is refused, for a cause that does not say that it leads nowhere. -/
  | refused {c : Cause} (h : faults.untraceable.lookup name = some c)
      (hopen : c.leadsNowhere = false)
  /-- It is too long to be looked up. -/
  | tooLong (h : faults.untraceable.lookup name = none)
      (hlong : fs.stat name = .error .nameTooLong)

variable {fs : FileSystem} {faults : Faults} {name : FileName}

/-- The refusals that leave the question open what a name leads to. -/
theorem obscure_iff :
    fs.Obscure faults name ↔ ∃ c, faults.stat fs name = .error c ∧ c.leadsNowhere = false := by
  constructor
  · rintro (⟨hlookup, hopen⟩ | ⟨hlookup, hlong⟩)
    · exact ⟨_, Faults.stat_of_refused hlookup, hopen⟩
    · exact ⟨_, (Faults.stat_of_traceable hlookup).trans hlong, rfl⟩
  · rintro ⟨c, hstat, hopen⟩
    rcases hlookup : faults.untraceable.lookup name with _ | c'
    · rw [Faults.stat_of_traceable hlookup] at hstat
      rcases nameTooLong_or_of_stat hstat with rfl | hnowhere
      · exact .tooLong hlookup hstat
      · rw [hopen] at hnowhere
        exact absurd hnowhere Bool.false_ne_true
    · rw [Faults.stat_of_refused hlookup, Except.error.injEq] at hstat
      exact .refused hlookup (by rw [hstat, hopen])

/-- What is asked about an obscure name is not answered. -/
theorem probe_eq_error_iff {c : Cause} :
    faults.probe fs name = .error c ↔ faults.stat fs name = .error c ∧ c.leadsNowhere = false := by
  rw [Faults.probe]
  rcases faults.stat fs name with c' | e
  · by_cases hnowhere : c'.leadsNowhere
    · simp only [hnowhere, if_true, reduceCtorEq, Except.error.injEq, false_iff, not_and]
      rintro rfl
      rw [hnowhere]
      exact fun h => nomatch h
    · simp only [hnowhere, if_false, Except.error.injEq, Bool.false_eq_true]
      refine (and_iff_left_of_imp ?_).symm
      rintro rfl
      exact eq_false_of_ne_true hnowhere
  · exact iff_of_false (fun h => nomatch h) fun h => nomatch h.1

end FileSystem

end ConfIndent
