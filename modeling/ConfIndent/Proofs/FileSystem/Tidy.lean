import ConfIndent.Proofs.FileSystem.Resolve

/-!
# Tidy Names of Directories

Whether a name leads to a directory does not depend on how it is written down. Staying in a
directory is as good as not staying there, and a solidus at the end asks for what is the case
anyway. Neither is true of files: a name that goes on behind a file leads nowhere, be it with
a full stop or with nothing but a solidus.

A route is compared with the same route without the steps that stay. Following a link puts
the route it holds in front of what is left, so both go on with routes that are the same
without such steps, and there is one link fewer to follow.

Tidying takes away what does not matter and makes no name longer. So a tidy name leads to the
same directory, except for two kinds of names that are refused as they are written: the empty
one, which is tidied to the current directory, and one that only tidying makes short enough.

## Main definitions

* `FileSystem.Arrives`: A route leads to a directory.
* `Step.moves`: The step does not stay.

## Theorems

* `FileSystem.arrives_iff_filter`: Steps that stay do not matter.
* `FileSystem.stat_tidy_iff`: A name leads to a directory if its tidy form does.
-/

namespace ConfIndent

open Bytes

/-- The step does not stay. -/
def Step.moves (s : Step) : Bool :=
  s != .stay

namespace FileSystem

/-- The route leads to a directory. -/
def Arrives (fs : FileSystem) (links : Nat) (here : Location) (steps : List Step) (slashed : Bool)
    (l : Location) : Prop :=
  resolve fs .read links here steps slashed = .ok (.taken l) ∧ fs.get? l = some .directory

variable {fs : FileSystem} {links : Nat} {here l : Location} {rest steps : List Step}
  {slashed : Bool} {name : Bytes}

theorem arrives_nil :
    fs.Arrives links here [] slashed l ↔ here = l ∧ fs.get? l = some .directory := by
  rw [Arrives, resolve_eq, descend, Except.ok.injEq, Spot.taken.injEq]

theorem arrives_stay :
    fs.Arrives links here (.stay :: rest) slashed l ↔ fs.Arrives links here rest slashed l := by
  rw [Arrives, Arrives, resolve_eq, resolve_eq, descend]

theorem arrives_up :
    fs.Arrives links here (.up :: rest) slashed l ↔
      fs.Arrives links here.dropLast rest slashed l := by
  rw [Arrives, Arrives, resolve_eq, resolve_eq, descend]

/-- A step into an entry leads on if the entry is a directory, or a link that may be followed. -/
theorem arrives_enter :
    fs.Arrives links here (.enter name :: rest) slashed l ↔
      name.length ≤ maxComponent ∧
        (fs.get? (here ++ [name]) = some .directory ∧
            fs.Arrives links (here ++ [name]) rest slashed l ∨
          ∃ target left, fs.get? (here ++ [name]) = some (.link target) ∧ links = left + 1 ∧
            fs.Arrives left (startOf here (Route.ofName target))
              ((Route.ofName target).steps ++ rest)
              (slashed || (rest.isEmpty && (Route.ofName target).slashed)) l) := by
  rw [Arrives, resolve_eq, descend_read]
  by_cases hlong : maxComponent < name.length
  · rw [if_pos hlong]
    exact iff_of_false (fun h => nomatch h.1) fun h => absurd hlong (Nat.not_lt.2 h.1)
  rw [if_neg hlong, and_iff_right (Nat.le_of_not_lt hlong)]
  rcases hget : fs.get? (here ++ [name]) with _ | _ | content | target
  · refine iff_of_false ?_ ?_
    · rintro ⟨h, -⟩
      simp only [] at h
      split at h <;> exact nomatch h
    · rintro (⟨h, -⟩ | ⟨_, _, h, -⟩) <;> exact nomatch h
  · simp only [true_and, Option.some_inj, reduceCtorEq, false_and, exists_false, or_false]
    rw [Arrives, resolve_eq]
  · refine iff_of_false ?_ ?_
    · -- What is reached is the file.
      rintro ⟨h, hdirectory⟩
      simp only [] at h
      split at h
      · rw [Except.ok.injEq, Spot.taken.injEq] at h
        rw [← h, hget] at hdirectory
        exact nomatch hdirectory
      · exact nomatch h
    · rintro (⟨h, -⟩ | ⟨_, _, h, -⟩) <;> exact nomatch h
  · simp only [Option.some_inj, reduceCtorEq, false_and, false_or, Entry.link.injEq,
      exists_and_left, exists_eq_left']
    rcases links with _ | links
    · exact iff_of_false (fun h => nomatch h.1) fun ⟨_, h, _⟩ => nomatch h
    · simp only [Nat.add_right_cancel_iff, exists_eq_left']
      rfl

/-- Steps that stay do not matter on the way to a directory, nor does a solidus behind them. -/
theorem arrives_iff_filter :
    fs.Arrives links here steps slashed l ↔
      fs.Arrives links here (steps.filter Step.moves) false l := by
  -- Both routes follow the same links, and between two of them both get shorter.
  induction links using Nat.strongRecOn generalizing here steps slashed with
  | ind links ihLinks =>
    induction steps generalizing here with
    | nil => rw [List.filter_nil, arrives_nil, arrives_nil]
    | cons s rest ih =>
      cases s with
      | stay => rw [List.filter_cons_of_neg (by decide), arrives_stay, ih]
      | up => rw [List.filter_cons_of_pos (by decide), arrives_up, arrives_up, ih]
      | enter name =>
        have hmoves : (Step.enter name).moves := rfl
        rw [List.filter_cons_of_pos hmoves, arrives_enter, arrives_enter, ih]
        refine and_congr_right fun _ => or_congr Iff.rfl ?_
        refine exists_congr fun target => exists_congr fun left => ?_
        refine and_congr_right fun _ => and_congr_right fun hleft => ?_
        have hfewer : left < links := by omega
        refine (ihLinks left hfewer).trans (Iff.trans ?_ (ihLinks left hfewer).symm)
        rw [List.filter_append, List.filter_append, List.filter_filter]
        simp only [Bool.and_self]

theorem stat_eq_directory_iff {name : FileName} (hne : name ≠ [])
    (hlength : name.length < maxName) :
    fs.stat name = .ok .directory ↔
      ∃ l, fs.Arrives maxLinks (startOf fs.workDir (Route.ofName name)) (Route.ofName name).steps
        (Route.ofName name).slashed l := by
  rw [stat, locate_eq_routeEnd .read hne hlength, routeEnd]
  simp only [Arrives]
  rcases resolve fs .read maxLinks (startOf fs.workDir (Route.ofName name))
    (Route.ofName name).steps (Route.ofName name).slashed with c | (l | ⟨directory, base⟩)
  · simp only [Except.bind, reduceCtorEq, false_and, exists_false]
  · simp only [Except.bind, entryAt, Except.ok.injEq, Spot.taken.injEq, exists_eq_left']
    rcases fs.get? l with _ | e
    · simp only [reduceCtorEq]
    · simp only [Except.ok.injEq, Option.some_inj]
  · simp only [Except.bind, entryAt, Except.ok.injEq, reduceCtorEq, false_and, exists_false]

/-- The steps that do not stay are those of the components that have an effect. -/
theorem filter_steps_ofName (name : FileName) :
    (Route.ofName name).steps.filter Step.moves =
      (FileName.components name).map Step.ofComponent := by
  have hmoves : Step.moves ∘ Step.ofComponent = fun c => c != [dot] := by
    funext c
    rw [Function.comp_apply, Step.ofComponent]
    by_cases hdot : c = [dot]
    · rw [if_pos hdot, hdot]
      rfl
    · rw [if_neg hdot, bne_iff_ne.2 hdot]
      split <;> rfl
  rw [Route.ofName, List.filter_map, hmoves, FileName.components_eq_filter]

/-- A name that is neither empty nor too long leads to a directory if its tidy form does. -/
theorem stat_tidy_iff {name : FileName} (hne : name ≠ []) (hlength : name.length < maxName) :
    fs.stat name.tidy = .ok .directory ↔ fs.stat name = .ok .directory := by
  have hshorter := Nat.lt_of_le_of_lt (FileName.length_tidy_le hne) hlength
  have hstart : startOf fs.workDir (Route.ofName name.tidy) =
      startOf fs.workDir (Route.ofName name) := by
    have hrelative : name.tidy.head? ≠ some slash ↔ name.head? ≠ some slash := by
      rw [← FileName.root_eq_nil_iff, ← FileName.root_eq_nil_iff, FileName.root_tidy]
    simp only [startOf, Route.ofName, beq_iff_eq, Decidable.not_iff_not.1 hrelative]
  rw [stat_eq_directory_iff (FileName.tidy_ne_nil name) hshorter,
    stat_eq_directory_iff hne hlength, hstart]
  refine exists_congr fun l => arrives_iff_filter.trans (Iff.trans ?_ arrives_iff_filter.symm)
  rw [filter_steps_ofName, filter_steps_ofName, FileName.components_tidy]

end FileSystem

end ConfIndent
