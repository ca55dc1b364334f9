import ConfIndent.Proofs.Batch.Plan
import ConfIndent.Proofs.FileSystem.Children

/-!
# The Tour of a Walk

The plan of a walk tells paths. Here it is told again by locations, so that where
a walk gets to can be said without the paths it builds on the way.

A walk gets to the directory it starts in, and from a directory that it gets to
and can list to the directories that stand there. Links to directories do not
count. What it finds are the entries that lead to a file and are named as asked.
None of this refers to the walk.

Two things have to be known about paths. The path built for an entry leads to the
entry, so that a test of the path is a test of what stands there, and a path that
can be listed is short, so that no directory is too deep to be entered.

A test can fail. What an entry leads to that is not taken for a directory may not be
told, for it may be a link to a name that is too long to be looked up, or itself have a
path that is, or be refused by the machine. That ends the walk.

## Main definitions

* `Starts`: A path leads to a directory of a well-formed file system.
* `Listable`: The directory can be listed.
* `Reached`: A walk gets to the directory.
* `Matches`: A walk finds the file.
* `Blocked`: A walk ends in the directory.
* `tour`: What a walk comes to, by location.

## Theorems

* `listing_of_reached`: What is listed for a directory that is reached.
* `planWithin_eq_tour`: The plan of a walk that is not blocked tells its tour.
* `exists_crash_of_blocked`: A walk that is blocked crashes.
-/

namespace ConfIndent

open Bytes FileSystem

/-- The path leads to a directory of a well-formed file system. -/
structure Starts (fs : FileSystem) (path : FileName) (l : Location) : Prop where
  wellFormed : fs.WellFormed
  null_not_mem : 0 ∉ path
  locate_eq : fs.locate .read path.tidy = .ok (.taken l)
  isDirectory : fs.get? l = some .directory

/-- The directory can be listed. -/
def Listable (faults : Faults) (path : FileName) (dirs : List Bytes) : Prop :=
  FileName.below path dirs ∉ faults.unlistable ∧ (FileName.below path dirs).length < maxName

instance decidableListable (faults : Faults) (path : FileName) (dirs : List Bytes) :
    Decidable (Listable faults path dirs) :=
  inferInstanceAs (Decidable (_ ∧ _))

/-- A walk gets to the directory that the names lead to from where it starts. -/
inductive Reached (fs : FileSystem) (faults : Faults) (path : FileName) (l : Location) :
    List Bytes → Prop where
  | start : Reached fs faults path l []
  | enter {dirs : List Bytes} {d : Bytes} (h : Reached fs faults path l dirs)
      (hlist : Listable faults path dirs) (hget : fs.get? (l ++ dirs ++ [d]) = some .directory) :
      Reached fs faults path l (dirs ++ [d])

/-- The entry leads to a file and is named as asked. -/
structure Matches (fs : FileSystem) (faults : Faults) (suffix path : FileName) (l : Location)
    (dirs : List Bytes) (name : Bytes) : Prop where
  exists_entry : ∃ e, fs.get? (l ++ dirs ++ [name]) = some e
  isFile : ∃ content, faults.stat fs (FileName.inside path dirs name) = .ok (.file content)
  visible : FileName.isHidden name = false
  endsIn : FileName.endsIn name suffix = true

/-- The directory has an entry that is not taken for a directory, and it cannot be told
    what it leads to. -/
def Blocked (fs : FileSystem) (faults : Faults) (path : FileName) (l : Location)
    (dirs : List Bytes) : Prop :=
  ∃ name e, fs.get? (l ++ dirs ++ [name]) = some e ∧
    entersAs faults fs (FileName.below path dirs) (name, e) = false ∧
    fs.Obscure faults (FileName.inside path dirs name)

/-- Why a directory cannot be listed. -/
def refusal (faults : Faults) (directory : FileName) : SystemError where
  cause := if directory ∈ faults.unlistable then .denied else .nameTooLong
  name := some directory

/-- What a walk comes to, by the names that lead there. -/
inductive Stop where
  /-- A file. -/
  | file (dirs : List Bytes) (name : Bytes)
  /-- A directory that cannot be listed. -/
  | refused (dirs : List Bytes)
  deriving DecidableEq, Repr

namespace Stop

/-- The stop as it is seen from one directory further up. -/
def under (d : Bytes) : Stop → Stop
  | file dirs name => file (d :: dirs) name
  | refused dirs => refused (d :: dirs)

/-- The visit at a stop. -/
def visit (faults : Faults) (path : FileName) (above : List Bytes) : Stop → Visit
  | file dirs name => .file (FileName.inside path (above ++ dirs) name)
  | refused dirs => .unlistable (refusal faults (FileName.below path (above ++ dirs)))

theorem visit_under (faults : Faults) (path : FileName) (above : List Bytes) (d : Bytes)
    (s : Stop) : visit faults path above (s.under d) = visit faults path (above ++ [d]) s := by
  cases s <;> simp only [under, visit, List.append_assoc, List.singleton_append]

end Stop

section Tours

variable (fs : FileSystem) (faults : Faults) (suffix path : FileName) (l : Location)

/-- The files that a walk finds in a directory, in order. -/
def filesIn (dirs : List Bytes) : List Bytes :=
  (fs.namesWhere faults (FileName.below path dirs) false
    (fs.children (l ++ dirs))).filter fun name =>
      decide (fs.isConf faults (some suffix) (FileName.inside path dirs name) = .ok true)

/-- The directories that a walk enters from a directory, in order. -/
def directoriesIn (dirs : List Bytes) : List Bytes :=
  (fs.namesWhere faults (FileName.below path dirs) true
    (fs.children (l ++ dirs))).filter fun name =>
      !fs.isLink (FileName.join (FileName.below path dirs) name)

/-- What a walk comes to that goes no more than the given number of directories
    deep. -/
def tour : Nat → List Bytes → List Stop
  | 0, _ => []
  | depth + 1, dirs =>
    if Listable faults path dirs then
      (filesIn fs faults suffix path l dirs).map (.file []) ++
        (directoriesIn fs faults path l dirs).flatMap fun d =>
          (tour depth (dirs ++ [d])).map (.under d)
    else [.refused []]

end Tours

/-- An entry that is taken for a directory is one, or is a link that can be followed to one. -/
theorem entersAs_eq_true_iff {faults : Faults} {fs : FileSystem} {directory : FileName}
    {name : Bytes} {e : Entry} :
    entersAs faults fs directory (name, e) = true ↔
      e = .directory ∨ ∃ target, e = .link target ∧
        faults.stat fs (FileName.join directory name) = .ok .directory := by
  cases e with
  | directory => exact iff_of_true rfl (.inl rfl)
  | file content =>
    refine iff_of_false Bool.false_ne_true ?_
    rintro (heq | ⟨target, heq, -⟩) <;> cases heq
  | link target =>
    simp only [entersAs]
    split
    · rename_i hstat
      exact iff_of_true rfl (.inr ⟨target, rfl, hstat⟩)
    · rename_i hother
      refine iff_of_false Bool.false_ne_true ?_
      rintro (heq | ⟨target', -, hstat⟩)
      · cases heq
      · exact hother hstat

/-- Which names of a directory a walk enters, and which it does not. -/
theorem mem_namesWhere {fs : FileSystem} {faults : Faults} {directory : FileName} {enters : Bool}
    {entries : List (Bytes × Entry)} {name : Bytes} :
    name ∈ fs.namesWhere faults directory enters entries ↔
      ∃ e, (name, e) ∈ entries ∧ entersAs faults fs directory (name, e) = enters := by
  rw [namesWhere, FileName.sort, List.mem_mergeSort, List.mem_map]
  constructor
  · rintro ⟨⟨name', e⟩, hentry, rfl⟩
    rw [List.mem_filter, beq_iff_eq] at hentry
    exact ⟨e, hentry⟩
  · rintro ⟨e, hentry, henters⟩
    exact ⟨(name, e), List.mem_filter.2 ⟨hentry, beq_iff_eq.2 henters⟩, rfl⟩

/-- To pass over items is to leave them out. -/
theorem flatMap_unless {α β : Type} (p : α → Bool) (f : α → List β) (items : List α) :
    (items.flatMap fun x => if p x then [] else f x) = (items.filter fun x => !p x).flatMap f := by
  induction items with
  | nil => rfl
  | cons x items ih =>
    rw [List.flatMap_cons, ih]
    by_cases hx : p x
    · rw [if_pos hx, List.filter_cons_of_neg (by simp only [hx, Bool.not_true, Bool.false_eq_true,
        not_false_eq_true]), List.nil_append]
    · rw [if_neg hx, List.filter_cons_of_pos (by simp only [hx, Bool.not_false]),
        List.flatMap_cons]

/-- Where no test fails, the files to visit are those that pass. -/
theorem flatMap_planFile {fs : FileSystem} {faults : Faults} {suffix : Suffix}
    (pathOf : Bytes → FileName) {names : List Bytes}
    (h : ∀ name ∈ names, ∀ c, fs.isConf faults suffix (pathOf name) ≠ .error c) :
    (names.flatMap fun name => fs.planFile faults suffix (pathOf name)) =
      (names.filter fun name => decide (fs.isConf faults suffix (pathOf name) = .ok true)).map
        fun name => .file (pathOf name) := by
  induction names with
  | nil => rfl
  | cons name names ih =>
    rw [List.flatMap_cons, ih fun name' hname' => h name' (List.mem_cons_of_mem _ hname'), planFile]
    rcases hconf : fs.isConf faults suffix (pathOf name) with c | _ | _
    · exact absurd hconf (h name List.mem_cons_self c)
    · rw [List.filter_cons_of_neg (by
        simp only [hconf, Except.ok.injEq, Bool.false_eq_true, decide_false, not_false_eq_true])]
      rfl
    · rw [List.filter_cons_of_pos (by simp only [hconf, decide_true])]
      rfl

section Walking

variable {fs : FileSystem} {faults : Faults} {suffix path : FileName} {l : Location}

/-- Whoever gets to a directory has been to those above it. -/
theorem Reached.of_append {dirs rest : List Bytes} (h : Reached fs faults path l (dirs ++ rest)) :
    Reached fs faults path l dirs := by
  generalize hall : dirs ++ rest = all at h
  induction h generalizing rest with
  | start =>
    rw [(List.append_eq_nil_iff.1 hall).1]
    exact .start
  | enter h hlist hget ih =>
    rcases List.eq_nil_or_concat rest with rfl | ⟨init, last, rfl⟩
    · rw [List.append_nil] at hall
      rw [hall]
      exact h.enter hlist hget
    · rw [List.concat_eq_append, ← List.append_assoc] at hall
      exact ih (List.append_inj' hall rfl).1

/-- A directory that is reached is entered from the one above it. -/
theorem Reached.cases_concat {dirs : List Bytes} {d : Bytes}
    (h : Reached fs faults path l (dirs ++ [d])) :
    Reached fs faults path l dirs ∧ Listable faults path dirs ∧
      fs.get? (l ++ dirs ++ [d]) = some .directory := by
  generalize hall : dirs ++ [d] = all at h
  cases h with
  | start => exact absurd (List.append_eq_nil_iff.1 hall).2 (List.cons_ne_nil _ _)
  | enter h hlist hget =>
    rcases List.append_inj' hall rfl with ⟨rfl, hd⟩
    rw [List.singleton_inj] at hd
    rw [hd]
    exact ⟨h, hlist, hget⟩

variable (hstart : Starts fs path l)

include hstart

theorem Reached.isName {dirs : List Bytes} (h : Reached fs faults path l dirs) :
    ∀ d ∈ dirs, IsName d := by
  induction h with
  | start =>
    intro d hd
    exact absurd hd List.not_mem_nil
  | enter h hlist hget ih =>
    intro d hd
    rcases List.mem_append.1 hd with hd | hd
    · exact ih d hd
    · rw [List.mem_singleton.1 hd]
      exact hstart.wellFormed.isName_of_get? hget

theorem Reached.isComponent {dirs : List Bytes} (h : Reached fs faults path l dirs) :
    ∀ d ∈ dirs, FileName.IsComponent d :=
  fun d hd => (h.isName hstart d hd).toIsComponent

/-- The names of a directory that is reached lead there. -/
theorem Reached.stands {dirs : List Bytes} (h : Reached fs faults path l dirs) :
    fs.Stands (FileName.root path) (FileName.components path ++ dirs) (l ++ dirs) := by
  induction h with
  | start =>
    rw [List.append_nil, List.append_nil]
    exact stands_of_locate hstart.locate_eq hstart.isDirectory
  | enter h hlist hget ih =>
    rw [← List.append_assoc, ← List.append_assoc]
    exact ih.concat (hstart.wellFormed.isName_of_get? hget) hget

/-- A directory that is reached is not too deep for the walk to get there. -/
theorem Reached.length_lt {dirs : List Bytes} (h : Reached fs faults path l dirs) :
    dirs.length < maxName := by
  cases h with
  | start => decide
  | enter h hlist hget =>
    -- The directory above was listed, so its path is short.
    have hlonger := FileName.length_lt_below path (h.isComponent hstart)
    have hshort := hlist.2
    rw [List.length_append, List.length_singleton]
    omega

theorem Reached.null_not_mem {dirs : List Bytes} (h : Reached fs faults path l dirs) :
    0 ∉ FileName.below path dirs :=
  FileName.not_mem_below (by decide) (by decide) hstart.null_not_mem
    fun d hd => (h.isName hstart d hd).null_not_mem

/-- The path that a walk builds for a directory leads there. -/
theorem Reached.locate_eq {dirs : List Bytes} (h : Reached fs faults path l dirs)
    (hlength : (FileName.below path dirs).length < maxName) :
    fs.locate .read (FileName.below path dirs) = .ok (.taken (l ++ dirs)) := by
  cases h with
  | start =>
    rw [List.append_nil]
    exact hstart.locate_eq
  | enter h hlist hget =>
    rename_i dirs d
    have hname := hstart.wellFormed.isName_of_get? hget
    have hne : FileName.join (FileName.below path dirs) d ≠ [] := by
      intro hnil
      have := FileName.length_lt_join (FileName.below path dirs) hname.ne_nil
      rw [hnil] at this
      exact absurd this (Nat.not_lt_zero _)
    rw [FileName.below_concat] at hlength ⊢
    rw [locate_eq_routeEnd .read hne hlength,
      routeEnd_directory (h.stands hstart) (h.isName hstart) hname hget, List.append_assoc]

/-- What is listed for a directory that is reached. -/
theorem listing_of_reached {dirs : List Bytes} (h : Reached fs faults path l dirs) :
    fs.listing faults (FileName.below path dirs) =
      .ok (if Listable faults path dirs then .ok (fs.children (l ++ dirs))
        else .error (refusal faults (FileName.below path dirs))) := by
  unfold listing refusal
  by_cases hfault : FileName.below path dirs ∈ faults.unlistable
  · have hrefused : ¬Listable faults path dirs := fun hlist => hlist.1 hfault
    rw [if_pos hfault, if_neg hrefused, if_pos hfault]
  · rw [if_neg hfault, if_neg (h.null_not_mem hstart), if_neg hfault, list]
    by_cases hlength : (FileName.below path dirs).length < maxName
    · simp only [h.locate_eq hstart hlength, (h.stands hstart).directory]
      rw [if_pos ⟨hfault, hlength⟩]
    · simp only [locate_of_long .read (Nat.le_of_not_lt hlength)]
      rw [if_neg fun hlist => hlength hlist.2]

section Directory

variable {dirs : List Bytes} (h : Reached fs faults path l dirs) {name : Bytes} {e : Entry}
  (hget : fs.get? (l ++ dirs ++ [name]) = some e)

include h hget

-- What the test of an entry looks up.
theorem leadsTo_inside :
    fs.leadsTo faults (FileName.inside path dirs name) =
      match faults.probe fs (FileName.inside path dirs name) with
      | .ok found => .ok found
      | .error c => .error (.system ⟨c, some (FileName.inside path dirs name)⟩) := by
  have hnull : 0 ∉ FileName.inside path dirs name :=
    FileName.not_mem_inside (by decide) (by decide) hstart.null_not_mem
      (fun d hd => (h.isName hstart d hd).null_not_mem)
      (hstart.wellFormed.isName_of_get? hget).null_not_mem
  exact if_neg hnull

/-- The test of an entry asks whether it leads to a file and is named as asked. -/
theorem isConf_inside_iff :
    fs.isConf faults (some suffix) (FileName.inside path dirs name) = .ok true ↔
      Matches fs faults suffix path l dirs name := by
  have hname := hstart.wellFormed.isName_of_get? hget
  have htidy : FileName.tidy (FileName.inside path dirs name) = FileName.inside path dirs name :=
    FileName.tidy_tidy _
  rw [isConf, htidy, leadsTo_inside hstart h hget,
    FileName.baseName_inside path (h.isComponent hstart) hname.toIsComponent]
  constructor
  · intro hconf
    -- Only a file is looked at further.
    rcases hprobe : faults.probe fs (FileName.inside path dirs name) with
        c | _ | _ | content | target <;>
      simp only [hprobe, Except.bind, Except.ok.injEq, reduceCtorEq, Bool.false_eq_true] at hconf
    by_cases hhidden : FileName.isHidden name
    · rw [if_pos hhidden] at hconf
      exact absurd hconf (by simp only [Except.ok.injEq, reduceCtorEq, not_false_eq_true])
    · rw [if_neg hhidden, Except.ok.injEq] at hconf
      exact ⟨⟨e, hget⟩, ⟨content, Faults.probe_eq_some_iff.1 hprobe⟩,
        eq_false_of_ne_true hhidden, hconf⟩
  · intro hmatches
    rcases hmatches.isFile with ⟨content, hstat⟩
    rw [Faults.probe_eq_some_iff.2 hstat]
    simp only [Except.bind, hmatches.visible, Bool.false_eq_true, if_false, hmatches.endsIn]

/-- The test of an entry fails if it cannot be told what the entry leads to. -/
theorem isConf_inside_error_iff :
    (∃ c, fs.isConf faults (some suffix) (FileName.inside path dirs name) = .error c) ↔
      fs.Obscure faults (FileName.inside path dirs name) := by
  have htidy : FileName.tidy (FileName.inside path dirs name) = FileName.inside path dirs name :=
    FileName.tidy_tidy _
  rw [isConf, htidy, leadsTo_inside hstart h hget, obscure_iff]
  simp only [← probe_eq_error_iff]
  rcases faults.probe fs (FileName.inside path dirs name) with c | found
  · exact iff_of_true ⟨_, rfl⟩ ⟨c, rfl⟩
  · refine iff_of_false ?_ fun ⟨c, hc⟩ => nomatch hc
    rintro ⟨c, hc⟩
    simp only [Except.bind] at hc
    repeat' split at hc
    all_goals exact nomatch hc

/-- What leads to a file is not taken for a directory. -/
theorem entersAs_of_stat {content : Bytes}
    (hstat : faults.stat fs (FileName.inside path dirs name) = .ok (.file content)) :
    entersAs faults fs (FileName.below path dirs) (name, e) = false := by
  have hname := hstart.wellFormed.isName_of_get? hget
  rw [← Bool.not_eq_true, entersAs_eq_true_iff]
  rintro (rfl | ⟨target, -, henter⟩)
  · exact stat_inside_of_directory (h.stands hstart) (h.isName hstart) hname hget content
      (Faults.stat_of_ok hstat)
  · have hinside := stat_inside_of_stat_join (h.stands hstart) (h.isName hstart) hname
      (Faults.stat_of_ok henter)
    rw [Faults.stat_of_ok hstat] at hinside
    exact absurd hinside (by simp only [Except.ok.injEq, reduceCtorEq, not_false_eq_true])

end Directory

variable {dirs : List Bytes} (h : Reached fs faults path l dirs)

include h

/-- The files found in a directory are the entries that match. -/
theorem mem_filesIn_iff (name : Bytes) :
    name ∈ filesIn fs faults suffix path l dirs ↔ Matches fs faults suffix path l dirs name := by
  rw [filesIn, List.mem_filter, decide_eq_true_eq, mem_namesWhere]
  constructor
  · rintro ⟨⟨e, hentry, -⟩, hconf⟩
    exact (isConf_inside_iff hstart h (hstart.wellFormed.mem_children_iff.1 hentry)).1 hconf
  · intro hmatches
    rcases hmatches.exists_entry with ⟨e, hget⟩
    refine ⟨⟨e, hstart.wellFormed.mem_children_iff.2 hget, ?_⟩,
      (isConf_inside_iff hstart h hget).2 hmatches⟩
    rcases hmatches.isFile with ⟨content, hstat⟩
    exact entersAs_of_stat hstart h hget hstat

/-- The directories entered from a directory are those that stand there. -/
theorem mem_directoriesIn_iff (d : Bytes) :
    d ∈ directoriesIn fs faults path l dirs ↔ fs.get? (l ++ dirs ++ [d]) = some .directory := by
  rw [directoriesIn, List.mem_filter, mem_namesWhere]
  constructor
  · rintro ⟨⟨e, hentry, henters⟩, hlink⟩
    have hget := hstart.wellFormed.mem_children_iff.1 hentry
    rcases entersAs_eq_true_iff.1 henters with rfl | ⟨target, rfl, hstat⟩
    · exact hget
    · -- A link that leads to a directory is known for a link.
      have hname := hstart.wellFormed.isName_of_get? hget
      rw [isLink_of_link (h.stands hstart) (h.isName hstart) hname hget
        (Faults.stat_of_ok hstat)] at hlink
      exact absurd hlink (by decide)
  · intro hget
    have hname := hstart.wellFormed.isName_of_get? hget
    refine ⟨⟨.directory, hstart.wellFormed.mem_children_iff.2 hget, rfl⟩, ?_⟩
    rw [isLink_of_directory (h.stands hstart) (h.isName hstart) hname hget]
    rfl

/-- A test of an entry ends the walk if the directory is blocked. -/
theorem exists_error_iff (suffix : FileName) :
    (∃ name ∈ fs.namesWhere faults (FileName.below path dirs) false (fs.children (l ++ dirs)),
        ∃ c, fs.isConf faults (some suffix) (FileName.inside path dirs name) = .error c) ↔
      Blocked fs faults path l dirs := by
  constructor
  · rintro ⟨name, hmem, herror⟩
    rcases mem_namesWhere.1 hmem with ⟨e, hentry, henters⟩
    have hget := hstart.wellFormed.mem_children_iff.1 hentry
    exact ⟨name, e, hget, henters, (isConf_inside_error_iff hstart h hget).1 herror⟩
  · rintro ⟨name, e, hget, henters, hobscure⟩
    refine ⟨name, ?_, (isConf_inside_error_iff hstart h hget).2 hobscure⟩
    rw [mem_namesWhere]
    exact ⟨e, hstart.wellFormed.mem_children_iff.2 hget, henters⟩

/-- The plan of a walk from a directory, one directory deep. -/
theorem planWithin_succ (depth : Nat) :
    fs.planWithin faults (some suffix) (depth + 1) (FileName.below path dirs) =
      if Listable faults path dirs then
        (fs.namesWhere faults (FileName.below path dirs) false (fs.children (l ++ dirs))).flatMap
            (fun name => fs.planFile faults (some suffix) (FileName.inside path dirs name)) ++
          (directoriesIn fs faults path l dirs).flatMap fun d =>
            fs.planWithin faults (some suffix) depth (FileName.below path (dirs ++ [d]))
      else [.unlistable (refusal faults (FileName.below path dirs))] := by
  rw [planWithin, listing_of_reached hstart h]
  by_cases hlist : Listable faults path dirs
  · simp only [if_pos hlist, directoriesIn, FileName.below_concat, ← flatMap_unless]
    rfl
  · simp only [if_neg hlist]

/-- The plan of a walk that is not blocked tells its tour. -/
theorem planWithin_eq_tour (depth : Nat)
    (hfree : ∀ rest, Reached fs faults path l (dirs ++ rest) →
      Listable faults path (dirs ++ rest) → ¬Blocked fs faults path l (dirs ++ rest)) :
    fs.planWithin faults (some suffix) depth (FileName.below path dirs) =
      (tour fs faults suffix path l depth dirs).map (Stop.visit faults path dirs) := by
  -- Below an entry the names that lead there are one more, on both sides.
  induction depth generalizing dirs with
  | zero => rfl
  | succ depth ih =>
    rw [planWithin_succ hstart h, tour]
    by_cases hlist : Listable faults path dirs
    · have hhere : ¬Blocked fs faults path l dirs := by
        have := hfree [] (by rwa [List.append_nil]) (by rwa [List.append_nil])
        rwa [List.append_nil] at this
      have hpass : ∀ name ∈
          fs.namesWhere faults (FileName.below path dirs) false (fs.children (l ++ dirs)),
          ∀ c, fs.isConf faults (some suffix) (FileName.inside path dirs name) ≠ .error c := by
        intro name hname c hc
        exact hhere ((exists_error_iff hstart h suffix).1 ⟨name, hname, c, hc⟩)
      rw [if_pos hlist, if_pos hlist, List.map_append, List.map_flatMap, List.map_map,
        flatMap_planFile (FileName.inside path dirs) hpass]
      -- First the files here, then what lies below.
      congr 1
      · refine List.map_congr_left ?_
        intro name _
        simp only [Function.comp_apply, Stop.visit, List.append_nil]
      · rw [List.flatMap_def, List.flatMap_def]
        congr 1
        refine List.map_congr_left ?_
        intro d hd
        have hbelow := h.enter hlist ((mem_directoriesIn_iff hstart h d).1 hd)
        rw [ih hbelow, List.map_map]
        · refine List.map_congr_left ?_
          intro s _
          rw [Function.comp_apply, Stop.visit_under]
        · intro rest
          rw [List.append_assoc, List.singleton_append]
          exact hfree (d :: rest)
    · rw [if_neg hlist, if_neg hlist, List.map_singleton, Stop.visit, List.append_nil]

/-- A walk that is blocked crashes. -/
theorem exists_crash_of_blocked {depth : Nat} (hdepth : depth + dirs.length = maxName)
    {rest : List Bytes} (hrest : Reached fs faults path l (dirs ++ rest))
    (hlist : Listable faults path (dirs ++ rest))
    (hblocked : Blocked fs faults path l (dirs ++ rest)) :
    ∃ c, .crash c ∈ fs.planWithin faults (some suffix) depth (FileName.below path dirs) := by
  induction depth generalizing dirs rest with
  | zero =>
    have := h.length_lt hstart
    omega
  | succ depth ih =>
    rw [planWithin_succ hstart h]
    -- What is blocked is the directory itself or one below the next on the way.
    cases rest with
    | nil =>
      rw [List.append_nil] at hlist hblocked
      rw [if_pos hlist]
      rcases (exists_error_iff hstart h suffix).2 hblocked with ⟨name, hname, c, hc⟩
      refine ⟨c, List.mem_append_left _ (List.mem_flatMap.2 ⟨name, hname, ?_⟩)⟩
      rw [planFile, hc]
      exact List.mem_singleton_self _
    | cons d rest =>
      rw [← List.singleton_append, ← List.append_assoc] at hrest hlist hblocked
      rcases hrest.of_append.cases_concat with ⟨-, hhere, hget⟩
      rw [if_pos hhere]
      have hdepth' : depth + (dirs ++ [d]).length = maxName := by
        rw [List.length_append, List.length_singleton]
        omega
      rcases ih hrest.of_append hdepth' hrest hlist hblocked with ⟨c, hc⟩
      refine ⟨c, List.mem_append_right _ (List.mem_flatMap.2 ⟨d, ?_, hc⟩)⟩
      exact (mem_directoriesIn_iff hstart h d).2 hget

end Walking

end ConfIndent
