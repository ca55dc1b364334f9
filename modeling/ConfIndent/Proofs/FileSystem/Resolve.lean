import ConfIndent.Proofs.FileName
import ConfIndent.Proofs.FileSystem.Descend

/-!
# Longer Names

Where a name leads that continues another. If a name leads to a directory, then a
name that adds an entry of that directory leads where the entry does. It would be
simple without links. With them, what is left to do after the first name is done
depends on how many links may still be followed, and that depends on nothing but
the first name.

`Stands` keeps this number. It says that components lead to a directory and that
whatever follows them is resolved from there, for any purpose, with the links that
are left. A component that is a directory itself is passed without using one up.

A name may be refused for its length although its components lead somewhere.
`routeEnd` is where they lead.

## Main definitions

* `FileSystem.IsName`: The name of an entry.
* `FileSystem.routeEnd`: Where the components of a name lead.
* `FileSystem.Stands`: Components lead to a directory.

## Theorems

* `FileSystem.exists_left_of_resolve`: A route to a directory can be continued.
* `FileSystem.Stands.concat`: A directory in a directory is reached.
* `FileSystem.exists_left_of_stands`: Where the paths of a walk lead.
* `FileSystem.stat_inside_of_stat_join`: Tidying a path takes nothing away.
* `FileSystem.isLink_of_link`: A link is known for a link.
-/

namespace ConfIndent

open Bytes

namespace FileSystem

/-- The name of an entry. -/
structure IsName (name : Bytes) : Prop extends FileName.IsComponent name where
  ne_up : name ≠ [dot, dot]
  length_le : name.length ≤ maxComponent
  null_not_mem : 0 ∉ name

instance decidableIsName (name : Bytes) : Decidable (IsName name) :=
  decidable_of_iff (name ≠ [] ∧ slash ∉ name ∧ name ≠ [dot] ∧ name ≠ [dot, dot] ∧
      name.length ≤ maxComponent ∧ 0 ∉ name)
    ⟨fun ⟨hne, hslash, hdot, hup, hlength, hnull⟩ => ⟨⟨hne, hslash, hdot⟩, hup, hlength, hnull⟩,
      fun h => ⟨h.ne_nil, h.slash_not_mem, h.ne_dot, h.ne_up, h.length_le, h.null_not_mem⟩⟩

-- A route that leads to a directory can be continued from there. The number of links
-- left is the same for whatever follows.
theorem exists_left_of_resolve {fs : FileSystem} {links : Nat} {here l : Location}
    {steps : List Step} {slashed : Bool}
    (h : resolve fs .read links here steps slashed = .ok (.taken l))
    (hdirectory : fs.get? l = some .directory) :
    ∃ left, ∀ purpose tail slashed', tail ≠ [] →
      resolve fs purpose links here (steps ++ tail) slashed' =
        resolve fs purpose left l tail slashed' := by
  -- A link is followed with one link fewer to follow, and every other step shortens the
  -- route, so the induction is on the links and then on the steps.
  induction links using Nat.strongRecOn generalizing here steps slashed with
  | ind links ihLinks =>
    rw [resolve_eq] at h
    induction steps generalizing here with
    | nil =>
      rw [descend, Except.ok.injEq, Spot.taken.injEq] at h
      refine ⟨links, ?_⟩
      intro purpose tail slashed' _
      rw [h, List.nil_append]
    | cons s rest ih =>
      cases s with
      | stay =>
        rcases ih h with ⟨left, hleft⟩
        refine ⟨left, ?_⟩
        intro purpose tail slashed' htail
        rw [← hleft purpose tail slashed' htail, resolve_eq, resolve_eq]
        rfl
      | up =>
        rcases ih h with ⟨left, hleft⟩
        refine ⟨left, ?_⟩
        intro purpose tail slashed' htail
        rw [← hleft purpose tail slashed' htail, resolve_eq, resolve_eq]
        rfl
      | enter name =>
        rcases cases_of_descend h with ⟨hlength, ⟨hget, h⟩ | ⟨content, hget, rfl⟩ |
          ⟨target, slashed₁, hget, h⟩⟩
        · rcases ih h with ⟨left, hleft⟩
          refine ⟨left, ?_⟩
          intro purpose tail slashed' htail
          rw [← hleft purpose tail slashed' htail, resolve_eq, resolve_eq, List.cons_append,
            descend_enter (List.append_ne_nil_of_right_ne_nil rest htail),
            if_neg (Nat.not_lt.2 hlength), hget]
        · -- A file can end a route, but no route to a directory.
          rw [hdirectory] at hget
          exact absurd hget (by simp only [Option.some_inj, reduceCtorEq, not_false_eq_true])
        · cases links with
          | zero => exact absurd h (by simp only [jump, reduceCtorEq, not_false_eq_true])
          | succ links =>
            rcases ihLinks links (Nat.lt_succ_self links) h with ⟨left, hleft⟩
            refine ⟨left, ?_⟩
            intro purpose tail slashed' htail
            rw [← hleft purpose tail slashed' htail, resolve_eq, List.cons_append,
              descend_enter (List.append_ne_nil_of_right_ne_nil rest htail),
              if_neg (Nat.not_lt.2 hlength), hget, List.append_assoc]
            rfl

/-- Where the components of a name lead, however long the name is. -/
def routeEnd (fs : FileSystem) (purpose : Purpose) (name : FileName) : Except Cause Spot :=
  resolve fs purpose maxLinks (startOf fs.workDir (Route.ofName name)) (Route.ofName name).steps
    (Route.ofName name).slashed

theorem locate_eq_routeEnd {fs : FileSystem} (purpose : Purpose) {name : FileName}
    (hne : name ≠ []) (hlength : name.length < maxName) :
    fs.locate purpose name = fs.routeEnd purpose name := by
  rw [locate, if_neg hne, if_neg (Nat.not_le.2 hlength)]
  rfl

theorem locate_of_long {fs : FileSystem} (purpose : Purpose) {name : FileName}
    (hlength : maxName ≤ name.length) : fs.locate purpose name = .error .nameTooLong := by
  have hne : name ≠ [] := by
    rintro rfl
    exact absurd hlength (by decide)
  rw [locate, if_neg hne, if_pos hlength]

/-- A name that is located is short enough, and its route ends there. -/
theorem routeEnd_of_locate {fs : FileSystem} {purpose : Purpose} {name : FileName} {spot : Spot}
    (h : fs.locate purpose name = .ok spot) :
    name.length < maxName ∧ fs.routeEnd purpose name = .ok spot := by
  unfold locate at h
  split at h
  · exact absurd h (by simp only [reduceCtorEq, not_false_eq_true])
  · split at h
    · exact absurd h (by simp only [reduceCtorEq, not_false_eq_true])
    · rename_i hlength
      exact ⟨Nat.lt_of_not_le hlength, h⟩

/-- The directory that a path with the lead starts in. -/
def startAt (fs : FileSystem) (lead : Bytes) : Location :=
  if lead = [] then fs.workDir else []

/-- The components lead to a directory, and what follows them is resolved from
    there. -/
structure Stands (fs : FileSystem) (lead : Bytes) (cs : List Bytes) (l : Location) : Prop where
  directory : fs.get? l = some .directory
  exists_left : ∃ left, ∀ purpose tail slashed, tail ≠ [] →
    resolve fs purpose maxLinks (fs.startAt lead) (cs.map Step.ofComponent ++ tail) slashed =
      resolve fs purpose left l tail slashed

theorem IsName.ofComponent {name : Bytes} (h : IsName name) :
    Step.ofComponent name = .enter name := by
  rw [Step.ofComponent, if_neg h.ne_dot, if_neg h.ne_up]

/-- A directory in a directory is reached. -/
theorem Stands.concat {fs : FileSystem} {lead : Bytes} {cs : List Bytes} {l : Location}
    (h : fs.Stands lead cs l) {name : Bytes} (hname : IsName name)
    (hget : fs.get? (l ++ [name]) = some .directory) :
    fs.Stands lead (cs ++ [name]) (l ++ [name]) := by
  rcases h.exists_left with ⟨left, hleft⟩
  refine ⟨hget, left, ?_⟩
  intro purpose tail slashed htail
  rw [List.map_append, List.append_assoc, List.map_singleton, hname.ofComponent,
    List.singleton_append, hleft purpose _ slashed (List.cons_ne_nil _ _), resolve_eq, resolve_eq,
    descend_enter htail, if_neg (Nat.not_lt.2 hname.length_le), hget]

-- An assembled path is taken apart again.
theorem ofName_assemble {lead : Bytes} (hlead : FileName.IsLead lead) {cs : List Bytes}
    (h : ∀ c ∈ cs, FileName.IsPiece c) :
    (Route.ofName (FileName.assemble lead cs)).steps = cs.map Step.ofComponent ∧
      ∀ fs : FileSystem, startOf fs.workDir (Route.ofName (FileName.assemble lead cs)) =
        fs.startAt lead := by
  constructor
  · rw [Route.ofName, FileName.filter_pieces_assemble hlead h]
  · intro fs
    have habsolute : (Route.ofName (FileName.assemble lead cs)).absolute = (lead != []) := by
      rcases hlead with rfl | rfl | rfl
      · -- No component opens with a solidus.
        have hfirst := FileName.takeWhile_intercalate h
        rw [Route.ofName, FileName.assemble, List.nil_append]
        rcases htext : List.intercalate [slash] cs with _ | ⟨b, text⟩
        · rfl
        · rw [htext] at hfirst
          rw [List.head?_cons, bne_self_eq_false, beq_eq_false_iff_ne]
          intro hb
          rw [Option.some_inj] at hb
          rw [hb, List.takeWhile_cons, if_pos (beq_self_eq_true slash)] at hfirst
          exact absurd hfirst (List.cons_ne_nil _ _)
      · rfl
      · rfl
    rw [startOf, habsolute, startAt]
    by_cases hnil : lead = []
    · rw [if_pos hnil, hnil]
      rfl
    · rw [if_neg hnil, if_pos (bne_iff_ne.2 hnil)]

/-- What a walk starts in is reached by its components. -/
theorem stands_of_locate {fs : FileSystem} {path : FileName} {l : Location}
    (h : fs.locate .read path.tidy = .ok (.taken l)) (hdirectory : fs.get? l = some .directory) :
    fs.Stands (FileName.root path) (FileName.components path) l := by
  have hend := (routeEnd_of_locate h).2
  rw [FileName.tidy_eq] at hend
  by_cases hnil : FileName.assemble (FileName.root path) (FileName.components path) = []
  · -- The current directory is reached without a step.
    rw [if_pos hnil] at hend
    rcases FileName.parts_eq_nil hnil with ⟨hroot, hcs⟩
    have hl : fs.workDir = l := by
      have hstay : fs.routeEnd .read [dot] = .ok (.taken fs.workDir) := rfl
      rw [hstay, Except.ok.injEq, Spot.taken.injEq] at hend
      exact hend
    refine ⟨hdirectory, maxLinks, ?_⟩
    intro purpose tail slashed _
    rw [hroot, hcs, startAt, if_pos rfl, hl]
    rfl
  · rw [if_neg hnil] at hend
    have hparts : ∀ c ∈ FileName.components path, FileName.IsPiece c :=
      fun c hc => (FileName.isComponent_of_mem_components hc).isPiece
    rcases ofName_assemble (FileName.isLead_root path) hparts with ⟨hsteps, hstart⟩
    rw [routeEnd, hsteps, hstart] at hend
    exact ⟨hdirectory, exists_left_of_resolve hend hdirectory⟩

theorem slashed_assemble {lead : Bytes} {cs : List Bytes} (hne : cs ≠ [])
    (h : ∀ c ∈ cs, FileName.IsPiece c) :
    (Route.ofName (FileName.assemble lead cs)).slashed = false := by
  rcases FileName.exists_getLast_assemble lead hne h with ⟨b, hlast, hb⟩
  rw [Route.ofName, hlast, beq_eq_false_iff_ne]
  exact fun heq => hb (Option.some_inj.1 heq)

/-- A name without solidi is looked up in the working directory, for any purpose. -/
theorem locate_of_get? {fs : FileSystem} {name : FileName} (hname : IsName name) {content : Bytes}
    (hget : fs.get? (fs.workDir ++ [name]) = some (.file content)) (purpose : Purpose) :
    fs.locate purpose name = .ok (.taken (fs.workDir ++ [name])) := by
  have hpieces : ∀ c ∈ [name], FileName.IsPiece c := by
    intro c hc
    rw [List.mem_singleton.1 hc]
    exact hname.isPiece
  rcases ofName_assemble (.inl rfl) hpieces with ⟨hsteps, hstart⟩
  have hslashed : (Route.ofName (FileName.assemble [] [name])).slashed = false :=
    slashed_assemble (List.cons_ne_nil _ _) hpieces
  rw [FileName.assemble_singleton] at hsteps hstart hslashed
  have hlength : name.length < maxName := Nat.lt_of_le_of_lt hname.length_le (by decide)
  rw [locate_eq_routeEnd purpose hname.ne_nil hlength, routeEnd, hsteps, hstart, hslashed,
    List.map_singleton, hname.ofComponent, resolve_eq, startAt, if_pos rfl, descend_last,
    if_neg (Nat.not_lt.2 hname.length_le), hget]

/-- To start in the current directory is to start where one is. -/
theorem routeEnd_dot (fs : FileSystem) (purpose : Purpose) {path : FileName} (hne : path ≠ [])
    (hstart : startOf fs.workDir (Route.ofName path) = fs.workDir) :
    fs.routeEnd purpose (dot :: slash :: path) = fs.routeEnd purpose path := by
  have hslashed : (Route.ofName (dot :: slash :: path)).slashed = (Route.ofName path).slashed := by
    have hlast : (dot :: slash :: path).getLast? = path.getLast? := by
      rw [List.getLast?_cons_cons, List.getLast?_cons_of_ne_nil hne]
    rw [Route.ofName, Route.ofName, hlast]
  have hsteps : (Route.ofName (dot :: slash :: path)).steps =
      .stay :: (Route.ofName path).steps := rfl
  rw [routeEnd, hslashed, hsteps, resolve_eq, routeEnd, hstart, resolve_eq]
  rfl

section Entries

variable {fs : FileSystem} {path : FileName} {dirs : List Bytes} {l : Location}
  (h : fs.Stands (FileName.root path) (FileName.components path ++ dirs) l)
  (hdirs : ∀ d ∈ dirs, IsName d)

include h hdirs

/-- The path of an entry leads from its directory to the entry, and so does the
    path that a walk builds for it. -/
theorem exists_left_of_stands :
    ∃ left, ∀ purpose name, IsName name →
      fs.routeEnd purpose (FileName.inside path dirs name) =
          descend fs purpose (fs.jump purpose left) false l [.enter name] ∧
        fs.routeEnd purpose (FileName.join (FileName.below path dirs) name) =
          descend fs purpose (fs.jump purpose left) false l [.enter name] := by
  rcases h.exists_left with ⟨left, hleft⟩
  refine ⟨left, ?_⟩
  intro purpose name hname
  have hcomponents : ∀ d ∈ dirs, FileName.IsComponent d := fun d hd => (hdirs d hd).toIsComponent
  have hparts := FileName.isPiece_of_mem_parts path hcomponents hname.toIsComponent
  have hne : FileName.components path ++ dirs ++ [name] ≠ [] :=
    List.append_ne_nil_of_right_ne_nil _ (List.cons_ne_nil _ _)
  have hinside := FileName.inside_eq path hcomponents hname.toIsComponent
  rcases ofName_assemble (FileName.isLead_root path) hparts with ⟨hsteps, hstart⟩
  have hend : fs.routeEnd purpose (FileName.inside path dirs name) =
      descend fs purpose (fs.jump purpose left) false l [.enter name] := by
    rw [hinside, routeEnd, slashed_assemble hne hparts, hstart, hsteps, List.map_append,
      List.map_singleton, hname.ofComponent, hleft purpose _ false (List.cons_ne_nil _ _),
      resolve_eq]
  refine ⟨hend, ?_⟩
  rcases FileName.join_below path hcomponents hname.toIsComponent with hjoin | ⟨hroot, hjoin⟩
  · rw [hjoin, hend]
  · rw [hjoin, routeEnd_dot fs purpose, hend]
    · rw [hinside]
      exact FileName.assemble_concat_ne_nil _ _ hname.ne_nil
    · rw [hinside, hstart, hroot]
      rfl

variable {name : Bytes} (hname : IsName name)

include hname

/-- To look at what an entry is, no link is followed. -/
theorem routeEnd_inspect {e : Entry} (hget : fs.get? (l ++ [name]) = some e) :
    fs.routeEnd .inspect (FileName.join (FileName.below path dirs) name) =
      .ok (.taken (l ++ [name])) := by
  rcases exists_left_of_stands h hdirs with ⟨left, hleft⟩
  rw [(hleft .inspect name hname).2, descend_last, if_neg (Nat.not_lt.2 hname.length_le), hget]
  cases e <;> rfl

theorem routeEnd_directory (hget : fs.get? (l ++ [name]) = some .directory) :
    fs.routeEnd .read (FileName.join (FileName.below path dirs) name) =
      .ok (.taken (l ++ [name])) := by
  rcases exists_left_of_stands h hdirs with ⟨left, hleft⟩
  rw [(hleft .read name hname).2, descend_last, if_neg (Nat.not_lt.2 hname.length_le), hget]

/-- Tidying does not change where a path leads, but may let it be looked up. -/
theorem routeEnd_inside (purpose : Purpose) :
    fs.routeEnd purpose (FileName.inside path dirs name) =
      fs.routeEnd purpose (FileName.join (FileName.below path dirs) name) := by
  rcases exists_left_of_stands h hdirs with ⟨left, hleft⟩
  rw [(hleft purpose name hname).1, (hleft purpose name hname).2]

theorem stat_inside_of_stat_join {e : Entry}
    (hstat : fs.stat (FileName.join (FileName.below path dirs) name) = .ok e) :
    fs.stat (FileName.inside path dirs name) = .ok e := by
  unfold stat at hstat ⊢
  rcases hlocate : fs.locate .read (FileName.join (FileName.below path dirs) name) with c | spot
  · rw [hlocate] at hstat
    exact absurd hstat (by simp only [Except.bind, reduceCtorEq, not_false_eq_true])
  · rcases routeEnd_of_locate hlocate with ⟨hlength, hend⟩
    have hcomponents : ∀ d ∈ dirs, FileName.IsComponent d :=
      fun d hd => (hdirs d hd).toIsComponent
    -- Tidying makes no path longer.
    have hshorter : (FileName.inside path dirs name).length < maxName := by
      rcases FileName.join_below path hcomponents hname.toIsComponent with hjoin | ⟨-, hjoin⟩
      · rwa [← hjoin]
      · rw [hjoin, List.length_cons, List.length_cons] at hlength
        omega
    have hne : FileName.inside path dirs name ≠ [] := FileName.tidy_ne_nil _
    rw [locate_eq_routeEnd .read hne hshorter, routeEnd_inside h hdirs hname, hend, ← hlocate]
    exact hstat

/-- A directory is not taken for a file. -/
theorem stat_inside_of_directory (hget : fs.get? (l ++ [name]) = some .directory)
    (content : Bytes) :
    fs.stat (FileName.inside path dirs name) ≠ .ok (.file content) := by
  intro hstat
  unfold stat at hstat
  rcases hlocate : fs.locate .read (FileName.inside path dirs name) with c | spot
  · rw [hlocate] at hstat
    exact absurd hstat (by simp only [Except.bind, reduceCtorEq, not_false_eq_true])
  · have hend := (routeEnd_of_locate hlocate).2
    rw [routeEnd_inside h hdirs hname, routeEnd_directory h hdirs hname hget,
      Except.ok.injEq] at hend
    rw [hlocate, ← hend] at hstat
    simp only [Except.bind, entryAt, hget] at hstat
    exact absurd hstat (by simp only [Except.ok.injEq, reduceCtorEq, not_false_eq_true])

theorem isLink_of_directory (hget : fs.get? (l ++ [name]) = some .directory) :
    fs.isLink (FileName.join (FileName.below path dirs) name) = false := by
  unfold isLink
  rcases hlocate : fs.locate .inspect (FileName.join (FileName.below path dirs) name) with c | spot
  · rfl
  · have hend := (routeEnd_of_locate hlocate).2
    rw [routeEnd_inspect h hdirs hname hget, Except.ok.injEq] at hend
    rw [← hend]
    simp only [Except.bind, entryAt, hget]

/-- A link that can be followed is known for a link. -/
theorem isLink_of_link {target : FileName} (hget : fs.get? (l ++ [name]) = some (.link target))
    {e : Entry} (hstat : fs.stat (FileName.join (FileName.below path dirs) name) = .ok e) :
    fs.isLink (FileName.join (FileName.below path dirs) name) = true := by
  have hlength : (FileName.join (FileName.below path dirs) name).length < maxName := by
    rcases Nat.lt_or_ge (FileName.join (FileName.below path dirs) name).length maxName with
      hlength | hlength
    · exact hlength
    · rw [stat, locate_of_long .read hlength] at hstat
      exact absurd hstat (by simp only [Except.bind, reduceCtorEq, not_false_eq_true])
  have hne : FileName.join (FileName.below path dirs) name ≠ [] := by
    intro hnil
    have := FileName.length_lt_join (FileName.below path dirs) hname.ne_nil
    rw [hnil] at this
    exact absurd this (Nat.not_lt_zero _)
  rw [isLink, locate_eq_routeEnd .inspect hne hlength, routeEnd_inspect h hdirs hname hget]
  simp only [Except.bind, entryAt, hget]

end Entries

end FileSystem

end ConfIndent
