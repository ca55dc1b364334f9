import ConfIndent.Proofs.Batch.Tour

/-!
# What a Walk Finds

A walk finds every file that is there to be found, finds it once, and finds the
files in order: those of a directory by name, then those of its subdirectories,
one subdirectory after the other. It notes every directory that it gets to and
cannot list, once, and finds nothing below it.

This holds of every walk that ends, and whether it does can be told beforehand. A
walk crashes if it gets to a directory with an entry of which it cannot be told what it
leads to, be it that its path is too long to be looked up, that it is a link to such a
name, or that the machine refuses to tell. Nothing else stops it.

What a walk comes to and in which order is shown for its tour, by induction on how
deep the walk may still go. That the bound on the depth is never met is no part of
it, since a directory that is too deep is not reached.

## Main definitions

* `Precedes`: The order in which files are found.
* `Walks`: What a walk has to give.

## Theorems

* `mem_tour_iff`: What is on a tour.
* `pairwise_tour`: A tour is in order.
* `walkFiles_iff`: When a walk ends, and what it gives.
* `walkFiles_longTarget`: A link to a long name stops a walk.
-/

namespace ConfIndent

open Bytes FileSystem

/-- The name stands before the other in order and is not the same. -/
def Ahead (a b : FileName) : Prop :=
  FileName.before a b ∧ a ≠ b

/-- A file in a directory, told by the names that lead to the directory, is found
    before the other. -/
def Precedes : List Bytes → Bytes → List Bytes → Bytes → Prop
  | [], name, [], name' => Ahead name name'
  | [], _, _ :: _, _ => True
  | _ :: _, _, [], _ => False
  | d :: dirs, name, d' :: dirs', name' => Ahead d d' ∨ d = d' ∧ Precedes dirs name dirs' name'

theorem before_trans (a b c : FileName) (hab : FileName.before a b) (hbc : FileName.before b c) :
    FileName.before a c := by
  rw [FileName.before, Bool.not_eq_true', decide_eq_false_iff_not, List.not_lt] at hab hbc ⊢
  exact List.le_trans hab hbc

theorem before_total (a b : FileName) : FileName.before a b || FileName.before b a := by
  rw [Bool.or_eq_true, FileName.before, FileName.before, Bool.not_eq_true', Bool.not_eq_true',
    decide_eq_false_iff_not, decide_eq_false_iff_not, List.not_lt, List.not_lt]
  exact List.le_total _ _

-- Names in order stand each before the next.
theorem pairwise_sort {names : List FileName} (h : names.Nodup) :
    (FileName.sort names).Pairwise Ahead := by
  have hdistinct : (FileName.sort names).Nodup :=
    (List.mergeSort_perm names FileName.before).nodup_iff.2 h
  exact List.Pairwise.and (List.pairwise_mergeSort before_trans before_total names) hdistinct

theorem not_precedes_self (dirs : List Bytes) (name : Bytes) : ¬Precedes dirs name dirs name := by
  induction dirs with
  | nil => exact fun h => h.2 rfl
  | cons d dirs ih =>
    rintro (h | ⟨-, h⟩)
    · exact h.2 rfl
    · exact ih h

namespace Stop

/-- A stop comes before another, as far as files are concerned, and is not the
    same. -/
def Precedes : Stop → Stop → Prop
  | file dirs name, file dirs' name' => ConfIndent.Precedes dirs name dirs' name'
  | s, t => s ≠ t

theorem Precedes.ne {s t : Stop} (h : s.Precedes t) : s ≠ t := by
  rintro rfl
  cases s with
  | file dirs name => exact not_precedes_self dirs name h
  | refused dirs => exact h rfl

/-- What comes first in a directory comes first below it. -/
theorem Precedes.under {s t : Stop} (h : s.Precedes t) (d : Bytes) :
    (s.under d).Precedes (t.under d) := by
  cases s with
  | file dirs name =>
    cases t with
    | file dirs' name' => exact .inr ⟨rfl, h⟩
    | refused dirs' => exact fun heq => nomatch heq
  | refused dirs =>
    cases t with
    | file dirs' name' => exact fun heq => nomatch heq
    | refused dirs' =>
      intro heq
      rw [Stop.under, Stop.under, refused.injEq, List.cons_inj_right] at heq
      rw [heq] at h
      exact h rfl

theorem precedes_under_of_ahead {d d' : Bytes} (h : Ahead d d') (s t : Stop) :
    (s.under d).Precedes (t.under d') := by
  cases s with
  | file dirs name =>
    cases t with
    | file dirs' name' => exact .inl h
    | refused dirs' => exact fun heq => nomatch heq
  | refused dirs =>
    cases t with
    | file dirs' name' => exact fun heq => nomatch heq
    | refused dirs' =>
      intro heq
      rw [Stop.under, Stop.under, refused.injEq, List.cons.injEq] at heq
      exact h.2 heq.1

theorem file_precedes_under (name d : Bytes) (s : Stop) :
    (file [] name).Precedes (s.under d) := by
  cases s with
  | file dirs name' => exact trivial
  | refused dirs => exact fun heq => nomatch heq

end Stop

section Tours

variable {fs : FileSystem} {faults : Faults} {suffix path : FileName} {l : Location}
  (hstart : Starts fs path l)

include hstart

theorem pairwise_namesWhere (faults : Faults) (dirs : List Bytes) (enters : Bool) :
    (fs.namesWhere faults (FileName.below path dirs) enters
      (fs.children (l ++ dirs))).Pairwise Ahead := by
  refine pairwise_sort (List.Nodup.sublist ?_ (hstart.wellFormed.nodup_children (l ++ dirs)))
  exact List.filter_sublist.map Prod.fst

/-- A tour is in order. -/
theorem pairwise_tour (depth : Nat) (dirs : List Bytes) :
    (tour fs faults suffix path l depth dirs).Pairwise Stop.Precedes := by
  induction depth generalizing dirs with
  | zero => exact List.Pairwise.nil
  | succ depth ih =>
    rw [tour]
    by_cases hlist : Listable faults path dirs
    · rw [if_pos hlist, List.pairwise_append, List.pairwise_map, List.pairwise_flatMap]
      -- The files here, the files below one entry, those below two, and the one kind
      -- before the other.
      refine ⟨?_, ⟨?_, ?_⟩, ?_⟩
      · exact (pairwise_namesWhere hstart faults dirs false).filter _
      · intro d _
        rw [List.pairwise_map]
        exact (ih (dirs ++ [d])).imp fun h => h.under d
      · refine ((pairwise_namesWhere hstart faults dirs true).filter _).imp ?_
        intro d d' hd s hs t ht
        rcases List.mem_map.1 hs with ⟨s, -, rfl⟩
        rcases List.mem_map.1 ht with ⟨t, -, rfl⟩
        exact Stop.precedes_under_of_ahead hd s t
      · intro s hs t ht
        rcases List.mem_map.1 hs with ⟨name, -, rfl⟩
        rcases List.mem_flatMap.1 ht with ⟨d, -, ht⟩
        rcases List.mem_map.1 ht with ⟨t, -, rfl⟩
        exact Stop.file_precedes_under name d t
    · rw [if_neg hlist]
      exact List.pairwise_singleton _ _

end Tours

/-- A walk from the directory comes to the stop. -/
def Stop.Holds (fs : FileSystem) (faults : Faults) (suffix path : FileName) (l : Location)
    (above : List Bytes) : Stop → Prop
  | file dirs name => Reached fs faults path l (above ++ dirs) ∧
      Listable faults path (above ++ dirs) ∧ Matches fs faults suffix path l (above ++ dirs) name
  | refused dirs => Reached fs faults path l (above ++ dirs) ∧ ¬Listable faults path (above ++ dirs)

theorem Stop.holds_under {fs : FileSystem} {faults : Faults} {suffix path : FileName} {l : Location}
    {above : List Bytes} {d : Bytes} {s : Stop} :
    (s.under d).Holds fs faults suffix path l above ↔
      s.Holds fs faults suffix path l (above ++ [d]) := by
  cases s <;> simp only [Stop.under, Stop.Holds, List.append_assoc, List.singleton_append]

/-- What is below a directory is reached by entering the directory. -/
theorem Stop.Holds.enters {fs : FileSystem} {faults : Faults} {suffix path : FileName}
    {l : Location} {above : List Bytes} {d : Bytes} {s : Stop}
    (h : (s.under d).Holds fs faults suffix path l above) :
    Reached fs faults path l (above ++ [d]) := by
  rw [Stop.holds_under] at h
  cases s with
  | file dirs name => exact h.1.of_append
  | refused dirs => exact h.1.of_append

/-- A stop is in the directory itself or below one of its entries. -/
theorem Stop.here_or_under (s : Stop) :
    (∃ name, s = .file [] name) ∨ s = .refused [] ∨ ∃ d t, s = under d t := by
  cases s with
  | file dirs name =>
    cases dirs with
    | nil => exact .inl ⟨name, rfl⟩
    | cons d dirs => exact .inr (.inr ⟨d, .file dirs name, rfl⟩)
  | refused dirs =>
    cases dirs with
    | nil => exact .inr (.inl rfl)
    | cons d dirs => exact .inr (.inr ⟨d, .refused dirs, rfl⟩)

section Membership

variable {fs : FileSystem} {faults : Faults} {suffix path : FileName} {l : Location}
  (hstart : Starts fs path l)

include hstart

/-- What is on a tour is what there is to come to. -/
theorem mem_tour_iff {depth : Nat} {dirs : List Bytes} (hdepth : depth + dirs.length = maxName)
    (h : Reached fs faults path l dirs) (s : Stop) :
    s ∈ tour fs faults suffix path l depth dirs ↔ s.Holds fs faults suffix path l dirs := by
  induction depth generalizing dirs s with
  | zero =>
    -- A directory as deep as that is not reached.
    have := h.length_lt hstart
    omega
  | succ depth ih =>
    have hbelow (d : Bytes) (hd : Reached fs faults path l (dirs ++ [d])) (t : Stop) :
        t ∈ tour fs faults suffix path l depth (dirs ++ [d]) ↔
          (t.under d).Holds fs faults suffix path l dirs := by
      rw [Stop.holds_under]
      refine ih ?_ hd t
      rw [List.length_append, List.length_singleton]
      omega
    rw [tour]
    by_cases hlist : Listable faults path dirs
    · rw [if_pos hlist, List.mem_append, List.mem_map, List.mem_flatMap]
      constructor
      · rintro (⟨name, hname, rfl⟩ | ⟨d, hd, hs⟩)
        · rw [mem_filesIn_iff hstart h] at hname
          rw [Stop.Holds, List.append_nil]
          exact ⟨h, hlist, hname⟩
        · rcases List.mem_map.1 hs with ⟨t, ht, rfl⟩
          have hget := (mem_directoriesIn_iff hstart h d).1 hd
          exact (hbelow d (h.enter hlist hget) t).1 ht
      · rcases s.here_or_under with ⟨name, rfl⟩ | rfl | ⟨d, t, rfl⟩
        · intro hholds
          rw [Stop.Holds, List.append_nil] at hholds
          exact .inl ⟨name, (mem_filesIn_iff hstart h name).2 hholds.2.2, rfl⟩
        · intro hholds
          rw [Stop.Holds, List.append_nil] at hholds
          exact absurd hlist hholds.2
        · intro hholds
          have hd := hholds.enters
          refine .inr ⟨d, (mem_directoriesIn_iff hstart h d).2 hd.cases_concat.2.2, ?_⟩
          exact List.mem_map.2 ⟨t, (hbelow d hd t).2 hholds, rfl⟩
    · rw [if_neg hlist, List.mem_singleton]
      constructor
      · rintro rfl
        rw [Stop.Holds, List.append_nil]
        exact ⟨h, hlist⟩
      · intro hholds
        rcases s.here_or_under with ⟨name, rfl⟩ | rfl | ⟨d, t, rfl⟩
        · rw [Stop.Holds, List.append_nil] at hholds
          exact absurd hholds.2.1 hlist
        · rfl
        · exact absurd hholds.enters.cases_concat.2.1 hlist

end Membership

/-- The paths that a walk yields. -/
def yielded (found : List (Except SystemError FileName)) : List FileName :=
  found.filterMap Except.toOption

/-- The errors that a walk notes. -/
def noted (found : List (Except SystemError FileName)) : List SystemError :=
  found.filterMap fun
    | .ok _ => none
    | .error reason => some reason

/-- What a walk has to give: the files that match in directories that it gets to and
    can list, in order, each by a path of its own; and an error for each directory
    that it gets to and cannot list. -/
structure Walks (fs : FileSystem) (faults : Faults) (suffix path : FileName) (l : Location)
    (found : List (Except SystemError FileName)) : Prop where
  exists_files : ∃ files : List (List Bytes × Bytes),
    yielded found = files.map (fun f => FileName.inside path f.1 f.2) ∧
    files.Pairwise (fun f g => Precedes f.1 f.2 g.1 g.2) ∧
    ∀ dirs name, (dirs, name) ∈ files ↔ Reached fs faults path l dirs ∧
      Listable faults path dirs ∧ Matches fs faults suffix path l dirs name
  nodup_yielded : (yielded found).Nodup
  exists_refused : ∃ refused : List (List Bytes),
    noted found = refused.map (fun dirs => refusal faults (FileName.below path dirs)) ∧
    refused.Nodup ∧
    ∀ dirs, dirs ∈ refused ↔ Reached fs faults path l dirs ∧ ¬Listable faults path dirs

namespace Stop

/-- The file at a stop. -/
def file? : Stop → Option (List Bytes × Bytes)
  | file dirs name => some (dirs, name)
  | refused _ => none

/-- The directory that cannot be listed at a stop. -/
def refused? : Stop → Option (List Bytes)
  | file _ _ => none
  | refused dirs => some dirs

theorem file?_eq_some_iff {s : Stop} {dirs : List Bytes} {name : Bytes} :
    s.file? = some (dirs, name) ↔ s = file dirs name := by
  cases s with
  | file dirs' name' => rw [file?, Option.some_inj, Prod.mk.injEq, file.injEq]
  | refused dirs' => exact iff_of_false (fun h => nomatch h) fun h => nomatch h

theorem refused?_eq_some_iff {s : Stop} {dirs : List Bytes} :
    s.refused? = some dirs ↔ s = refused dirs := by
  cases s with
  | file dirs' name' => exact iff_of_false (fun h => nomatch h) fun h => nomatch h
  | refused dirs' => rw [refused?, Option.some_inj, refused.injEq]

-- What is told of a tour.
theorem filterMap_found?_visit (faults : Faults) (path : FileName) (stops : List Stop) :
    yielded ((stops.map (visit faults path [])).filterMap Visit.found?) =
        (stops.filterMap file?).map (fun f => FileName.inside path f.1 f.2) ∧
      noted ((stops.map (visit faults path [])).filterMap Visit.found?) =
        (stops.filterMap refused?).map fun dirs => refusal faults (FileName.below path dirs) := by
  constructor
  · rw [yielded, List.filterMap_map, List.filterMap_filterMap, List.map_filterMap]
    congr 1
    funext s
    cases s <;> rfl
  · rw [noted, List.filterMap_map, List.filterMap_filterMap, List.map_filterMap]
    congr 1
    funext s
    cases s <;> rfl

end Stop

section Results

variable {fs : FileSystem} {faults : Faults} {suffix path : FileName} {l : Location}
  (hstart : Starts fs path l)

include hstart

/-- The files that a walk tells of are those that match, in the directories it can list. -/
theorem mem_filterMap_file?_iff (dirs : List Bytes) (name : Bytes) :
    (dirs, name) ∈ (tour fs faults suffix path l maxName []).filterMap Stop.file? ↔
      Reached fs faults path l dirs ∧ Listable faults path dirs ∧
        Matches fs faults suffix path l dirs name := by
  have hmem : .file dirs name ∈ tour fs faults suffix path l maxName [] ↔ _ :=
    mem_tour_iff hstart (Nat.add_zero maxName) .start (.file dirs name)
  rw [List.mem_filterMap]
  constructor
  · rintro ⟨s, hs, hfile⟩
    rw [Stop.file?_eq_some_iff.1 hfile] at hs
    exact hmem.1 hs
  · intro h
    exact ⟨.file dirs name, hmem.2 h, rfl⟩

/-- The directories that a walk is refused are those it reaches and cannot list. -/
theorem mem_filterMap_refused?_iff (dirs : List Bytes) :
    dirs ∈ (tour fs faults suffix path l maxName []).filterMap Stop.refused? ↔
      Reached fs faults path l dirs ∧ ¬Listable faults path dirs := by
  have hmem : .refused dirs ∈ tour fs faults suffix path l maxName [] ↔ _ :=
    mem_tour_iff hstart (Nat.add_zero maxName) .start (.refused dirs)
  rw [List.mem_filterMap]
  constructor
  · rintro ⟨s, hs, hrefused⟩
    rw [Stop.refused?_eq_some_iff.1 hrefused] at hs
    exact hmem.1 hs
  · intro h
    exact ⟨.refused dirs, hmem.2 h, rfl⟩

/-- A walk tells of files in its order. -/
theorem pairwise_files :
    ((tour fs faults suffix path l maxName []).filterMap Stop.file?).Pairwise
      fun f g => Precedes f.1 f.2 g.1 g.2 := by
  refine List.Pairwise.filterMap Stop.file? ?_ (pairwise_tour hstart maxName [])
  rintro s t hst ⟨dirs, name⟩ hs ⟨dirs', name'⟩ ht
  rw [Stop.file?_eq_some_iff.1 hs, Stop.file?_eq_some_iff.1 ht] at hst
  exact hst

/-- Different files are told by different paths. -/
theorem nodup_paths :
    (((tour fs faults suffix path l maxName []).filterMap Stop.file?).map
      fun f => FileName.inside path f.1 f.2).Nodup := by
  rw [List.Nodup, List.pairwise_map]
  refine (pairwise_files hstart).imp_of_mem ?_
  rintro ⟨dirs, name⟩ ⟨dirs', name'⟩ hf hg hprecedes hsame
  rw [mem_filterMap_file?_iff hstart] at hf hg
  -- Files in order are different files, and their paths tell them apart.
  rcases hf.2.2.exists_entry with ⟨e, he⟩
  rcases hg.2.2.exists_entry with ⟨e', he'⟩
  have hname := (hstart.wellFormed.isName_of_get? he).toIsComponent
  have hname' := (hstart.wellFormed.isName_of_get? he').toIsComponent
  rcases FileName.inside_inj path (hf.1.isComponent hstart) hname (hg.1.isComponent hstart) hname'
    hsame with ⟨rfl, rfl⟩
  exact not_precedes_self dirs name hprecedes

/-- What is told of a tour is what a walk has to give. -/
theorem walks_tour :
    Walks fs faults suffix path l
      (((tour fs faults suffix path l maxName []).map (Stop.visit faults path [])).filterMap
        Visit.found?) := by
  rcases Stop.filterMap_found?_visit faults path (tour fs faults suffix path l maxName []) with
    ⟨hyielded, hnoted⟩
  refine ⟨⟨_, hyielded, pairwise_files hstart, mem_filterMap_file?_iff hstart⟩, ?_,
    ⟨_, hnoted, ?_, mem_filterMap_refused?_iff hstart⟩⟩
  · rw [hyielded]
    exact nodup_paths hstart
  · refine List.Pairwise.filterMap Stop.refused? ?_ (pairwise_tour hstart maxName [])
    intro s t hst dirs hs dirs' ht heq
    rw [Stop.refused?_eq_some_iff.1 hs, Stop.refused?_eq_some_iff.1 ht, heq] at hst
    exact hst.ne rfl

end Results

/-- A walk ends if it gets to no directory that has an entry of which it cannot be told
    what it leads to. If it ends, it gives what it has to, and has done nothing else. -/
theorem walkFiles_iff {faults : Faults} {suffix path : FileName} {l : Location} {w : World}
    (hstart : Starts w.files path l) :
    ((∃ found w', walkFiles faults (some suffix) path w = .ok found w') ↔
      ∀ dirs, Reached w.files faults path l dirs → Listable faults path dirs →
        ¬Blocked w.files faults path l dirs) ∧
    ∀ found w', walkFiles faults (some suffix) path w = .ok found w' →
      w' = w ∧ Walks w.files faults suffix path l found := by
  -- A walk that has ended was not blocked, or its plan would hold a crash.
  have hfree {found : List (Except SystemError FileName)} {w' : World}
      (hwalk : walkFiles faults (some suffix) path w = .ok found w') (dirs : List Bytes)
      (h : Reached w.files faults path l dirs) (hlist : Listable faults path dirs) :
      ¬Blocked w.files faults path l dirs := by
    intro hblocked
    rw [walkFiles_run, Action.answer_eq_ok_iff, mapM_found_eq_ok_iff] at hwalk
    have hcrash : ∃ c, .crash c ∈ w.files.plan faults (some suffix) path :=
      exists_crash_of_blocked hstart .start (Nat.add_zero maxName) h hlist hblocked
    rcases hcrash with ⟨c, hc⟩
    exact hwalk.1.1 c hc
  have hplan (hnone : ∀ dirs, Reached w.files faults path l dirs → Listable faults path dirs →
      ¬Blocked w.files faults path l dirs) :
      w.files.plan faults (some suffix) path =
        (tour w.files faults suffix path l maxName []).map (Stop.visit faults path []) :=
    planWithin_eq_tour hstart .start maxName hnone
  refine ⟨⟨?_, ?_⟩, ?_⟩
  · rintro ⟨found, w', hwalk⟩
    exact hfree hwalk
  · intro hnone
    refine ⟨(w.files.plan faults (some suffix) path).filterMap Visit.found?, w, ?_⟩
    rw [walkFiles_run, Action.answer_eq_ok_iff, mapM_found_eq_ok_iff, hplan hnone]
    refine ⟨⟨?_, rfl⟩, rfl⟩
    intro c hc
    rcases List.mem_map.1 hc with ⟨s, -, hs⟩
    cases s <;> cases hs
  · intro found w' hwalk
    have hnone := hfree hwalk
    rw [walkFiles_run, Action.answer_eq_ok_iff, mapM_found_eq_ok_iff, hplan hnone] at hwalk
    rcases hwalk with ⟨⟨-, rfl⟩, hw⟩
    exact ⟨hw, walks_tour hstart⟩

/-- A directory with a link to a file in a hidden directory, where a link leads
    back. -/
def mixedDirectory : World where
  files := {
    entries := [([ofAscii "d"], .directory),
      ([ofAscii "d", ofAscii ".h"], .directory),
      ([ofAscii "d", ofAscii ".h", ofAscii "a.conf"], .file (ofAscii "a\n")),
      ([ofAscii "d", ofAscii ".h", ofAscii "up"], .link (ofAscii "../../d")),
      ([ofAscii "d", ofAscii "b.conf"], .link (ofAscii ".h/a.conf"))]
    workDir := [] }

/-- The hidden directory is entered and the link back is not. -/
theorem walkFiles_iff_mixedDirectory :
    Starts mixedDirectory.files (ofAscii "d") [ofAscii "d"] ∧
      walkFiles {} (some (ofAscii ".conf")) (ofAscii "d") mixedDirectory =
        .ok [.ok (ofAscii "d/b.conf"), .ok (ofAscii "d/.h/a.conf")] mixedDirectory ∧
      (∀ dirs, Reached mixedDirectory.files {} (ofAscii "d") [ofAscii "d"] dirs →
        Listable {} (ofAscii "d") dirs →
        ¬Blocked mixedDirectory.files {} (ofAscii "d") [ofAscii "d"] dirs) ∧
      Walks mixedDirectory.files {} (ofAscii ".conf") (ofAscii "d") [ofAscii "d"]
        [.ok (ofAscii "d/b.conf"), .ok (ofAscii "d/.h/a.conf")] := by
  have hstart : Starts mixedDirectory.files (ofAscii "d") [ofAscii "d"] :=
    ⟨⟨by decide +kernel, by decide +kernel⟩, by decide, by decide +kernel, by decide⟩
  have hwalk : walkFiles {} (some (ofAscii ".conf")) (ofAscii "d") mixedDirectory =
      .ok [.ok (ofAscii "d/b.conf"), .ok (ofAscii "d/.h/a.conf")] mixedDirectory := by
    decide +kernel
  exact ⟨hstart, hwalk, (walkFiles_iff hstart).1.1 ⟨_, _, hwalk⟩,
    ((walkFiles_iff hstart).2 _ _ hwalk).2⟩

/-- A directory with a link to a name too long to be looked up. -/
def longTarget : World where
  files := {
    entries := [([ofAscii "d"], .directory),
      ([ofAscii "d", ofAscii "x.conf"], .link (List.replicate 256 97))]
    workDir := [] }

/-- A link that leads nowhere stops a walk, and with it a batch, if the name it holds
    is too long. -/
theorem walkFiles_longTarget :
    Starts longTarget.files (ofAscii "d") [ofAscii "d"] ∧
      walkFiles {} (some (ofAscii ".conf")) (ofAscii "d") longTarget =
        .error (.system ⟨.nameTooLong, some (ofAscii "d/x.conf")⟩) longTarget := by
  refine ⟨⟨⟨?_, ?_⟩, ?_, ?_, ?_⟩, ?_⟩ <;> decide +kernel

end ConfIndent
