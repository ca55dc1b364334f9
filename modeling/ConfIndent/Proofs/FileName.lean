import ConfIndent.FileName
import ConfIndent.Proofs.Bytes

/-!
# Tidy Paths

A tidy path is a lead, which is nothing or one or two solidi, and components with
solidi between them. From such a path its parts are found again, and so it is as
tidy as it gets. Adding an entry to it adds a component.

The current directory is the exception. It has no component to show, so it is
written as a full stop, and what a walk builds upon that keeps it as a first
component. Tidying takes it away again, and nothing else.

## Main definitions

* `FileName.IsComponent`: A component that has an effect.
* `FileName.IsPiece`: A component that may have none.
* `FileName.IsLead`: The solidi that a tidy path may start with.
* `FileName.assemble`: The path with a lead and components.
* `FileName.below`: The path of a directory as a walk builds it.
* `FileName.inside`: The path of a file as a walk tells it.

## Theorems

* `FileName.tidy_tidy`: Tidying twice is tidying once.
* `FileName.length_tidy_le`: Tidying makes no path longer.
* `FileName.mem_tidy`: Tidying leaves all other bytes in the path.
* `FileName.inside_eq`: The components of a path that a walk tells.
* `FileName.join_below`: What tidying does to a path that a walk builds.
* `FileName.inside_inj`: Different files have different paths.
-/

namespace ConfIndent

open Bytes

namespace FileName

/-- A component that has an effect. -/
structure IsComponent (c : Bytes) : Prop where
  ne_nil : c ≠ []
  slash_not_mem : slash ∉ c
  ne_dot : c ≠ [dot]

/-- A piece that solidi can separate from others. -/
structure IsPiece (c : Bytes) : Prop where
  ne_nil : c ≠ []
  slash_not_mem : slash ∉ c

theorem IsComponent.isPiece {c : Bytes} (h : IsComponent c) : IsPiece c :=
  ⟨h.ne_nil, h.slash_not_mem⟩

/-- The solidi that a tidy path may start with. -/
def IsLead (lead : Bytes) : Prop :=
  lead = [] ∨ lead = [slash] ∨ lead = [slash, slash]

/-- The path with a lead and components. -/
def assemble (lead : Bytes) (components : List Bytes) : FileName :=
  lead ++ List.intercalate [slash] components

theorem isPiece_dot : IsPiece [dot] :=
  ⟨by decide, by decide⟩

theorem isLead_root (path : FileName) : IsLead (root path) := by
  unfold root
  split
  · exact .inl rfl
  · exact .inr (.inr rfl)
  · exact .inr (.inl rfl)

theorem isComponent_of_mem_components {path : FileName} {c : Bytes} (h : c ∈ components path) :
    IsComponent c := by
  rw [components, List.mem_filter, Bool.and_eq_true, bne_iff_ne, bne_iff_ne] at h
  exact ⟨h.2.1, not_mem_of_mem_pieces c h.1, h.2.2⟩

/-- Leading solidi make empty pieces only. -/
theorem filter_pieces_lead {lead : Bytes} (hlead : IsLead lead) (text : Bytes) :
    (pieces slash (lead ++ text)).filter (· != []) = (pieces slash text).filter (· != []) := by
  have hslash : ∀ text, (pieces slash (slash :: text)).filter (· != []) =
      (pieces slash text).filter (· != []) := by
    intro text
    rw [pieces, if_pos rfl, List.filter_cons_of_neg (by decide)]
  rcases hlead with rfl | rfl | rfl
  · rfl
  · exact hslash text
  · exact (hslash _).trans (hslash text)

/-- The pieces of a path that are not empty are what it was put together from. -/
theorem filter_pieces_assemble {lead : Bytes} (hlead : IsLead lead) {cs : List Bytes}
    (h : ∀ c ∈ cs, IsPiece c) :
    (pieces slash (assemble lead cs)).filter (· != []) = cs := by
  rw [assemble, filter_pieces_lead hlead]
  by_cases hcs : cs = []
  · rw [hcs]
    decide
  · rw [pieces_intercalate hcs fun c hc => (h c hc).slash_not_mem, List.filter_eq_self]
    intro c hc
    exact bne_iff_ne.2 (h c hc).ne_nil

theorem components_eq_filter (path : FileName) :
    components path = ((pieces slash path).filter (· != [])).filter (· != [dot]) := by
  rw [List.filter_filter, components]
  congr 1
  funext c
  exact Bool.and_comm _ _

/-- The components of an assembled path are those it was put together from. -/
theorem components_assemble {lead : Bytes} (hlead : IsLead lead) {cs : List Bytes}
    (h : ∀ c ∈ cs, IsComponent c) : components (assemble lead cs) = cs := by
  rw [components_eq_filter,
    filter_pieces_assemble hlead fun c hc => (h c hc).isPiece, List.filter_eq_self]
  intro c hc
  exact bne_iff_ne.2 (h c hc).ne_dot

-- Joined components do not start with a solidus.
theorem takeWhile_intercalate {cs : List Bytes} (h : ∀ c ∈ cs, IsPiece c) :
    (List.intercalate [slash] cs).takeWhile (· == slash) = [] := by
  rcases cs with _ | ⟨c, cs⟩
  · rfl
  · rcases h c List.mem_cons_self with ⟨hne, hslash⟩
    rcases c with _ | ⟨b, c⟩
    · exact absurd rfl hne
    · rw [List.mem_cons, not_or] at hslash
      cases cs with
      | nil =>
        rw [List.intercalate_singleton, List.takeWhile_cons_of_neg]
        exact fun hb => hslash.1 (beq_iff_eq.1 hb).symm
      | cons c' cs =>
        rw [List.intercalate_cons_cons, List.append_assoc, List.cons_append,
          List.takeWhile_cons_of_neg]
        exact fun hb => hslash.1 (beq_iff_eq.1 hb).symm

/-- The root of an assembled path is what it starts with. -/
theorem root_assemble {lead : Bytes} (hlead : IsLead lead) {cs : List Bytes}
    (h : ∀ c ∈ cs, IsPiece c) : root (assemble lead cs) = lead := by
  have hall : ∀ b ∈ lead, (b == slash) = true := by
    intro b hb
    rcases hlead with rfl | rfl | rfl
    · exact absurd hb List.not_mem_nil
    · rw [List.mem_singleton] at hb
      rw [hb, beq_self_eq_true]
    · rw [List.mem_cons, List.mem_singleton, or_self] at hb
      rw [hb, beq_self_eq_true]
  rw [root, assemble, List.takeWhile_append_of_pos hall, takeWhile_intercalate h, List.append_nil]
  rcases hlead with rfl | rfl | rfl <;> rfl

/-- A tidy path is assembled, unless it is the current directory. -/
theorem tidy_eq (path : FileName) :
    tidy path =
      if assemble (root path) (components path) = [] then [dot]
      else assemble (root path) (components path) := by
  unfold tidy assemble
  split
  · rename_i h
    rw [if_pos h]
  · rename_i hne
    rw [if_neg hne]

theorem tidy_assemble {lead : Bytes} (hlead : IsLead lead) {cs : List Bytes}
    (h : ∀ c ∈ cs, IsComponent c) (hne : assemble lead cs ≠ []) :
    tidy (assemble lead cs) = assemble lead cs := by
  rw [tidy_eq, components_assemble hlead h,
    root_assemble hlead fun c hc => (h c hc).isPiece, if_neg hne]

@[simp] theorem tidy_tidy (path : FileName) : tidy (tidy path) = tidy path := by
  rw [tidy_eq path]
  by_cases h : assemble (root path) (components path) = []
  · rw [if_pos h]
    decide
  · rw [if_neg h]
    exact tidy_assemble (isLead_root path) (fun _ => isComponent_of_mem_components) h

theorem assemble_singleton (name : FileName) : assemble [] [name] = name := by
  rw [assemble, List.nil_append, List.intercalate_singleton]

-- A single component is tidy.
theorem tidy_of_isComponent {name : FileName} (h : IsComponent name) : tidy name = name := by
  have htidy := tidy_assemble (.inl rfl) (fun c hc => by rwa [List.mem_singleton.1 hc])
    (by rw [assemble_singleton]; exact h.ne_nil)
  rwa [assemble_singleton] at htidy

theorem intercalate_concat {cs : List Bytes} (hne : cs ≠ []) (c : Bytes) :
    List.intercalate [slash] (cs ++ [c]) = List.intercalate [slash] cs ++ slash :: c := by
  induction cs with
  | nil => exact absurd rfl hne
  | cons first cs ih =>
    rw [List.cons_append, List.intercalate_cons_of_ne_nil (by
      intro h
      exact absurd (List.append_eq_nil_iff.1 h).2 (List.cons_ne_nil _ _))]
    by_cases hcs : cs = []
    · rw [hcs, List.nil_append, List.intercalate_singleton, List.intercalate_singleton,
        List.append_assoc, List.singleton_append]
    · rw [ih hcs, List.intercalate_cons_of_ne_nil hcs, ← List.append_assoc]

/-- A path with a component ends in the last byte of one. -/
theorem exists_getLast_assemble (lead : Bytes) {cs : List Bytes} (hne : cs ≠ [])
    (h : ∀ c ∈ cs, IsPiece c) :
    ∃ b, (assemble lead cs).getLast? = some b ∧ b ≠ slash := by
  rcases List.eq_nil_or_concat cs with hnil | ⟨init, c, rfl⟩
  · exact absurd hnil hne
  · rw [List.concat_eq_append] at h ⊢
    rcases h c (List.mem_append_right _ List.mem_cons_self) with ⟨hc, hslash⟩
    have hend : ∃ text, assemble lead (init ++ [c]) = text ++ c := by
      by_cases hinit : init = []
      · refine ⟨lead, ?_⟩
        rw [hinit, List.nil_append, assemble, List.intercalate_singleton]
      · refine ⟨lead ++ (List.intercalate [slash] init ++ [slash]), ?_⟩
        rw [assemble, intercalate_concat hinit, List.append_assoc, List.append_assoc,
          List.singleton_append]
    rcases hend with ⟨text, htext⟩
    refine ⟨c.getLast hc, ?_, ?_⟩
    · rw [htext, List.getLast?_append, List.getLast?_eq_some_getLast hc, Option.some_or]
    · intro heq
      rw [← heq] at hslash
      exact hslash (List.getLast_mem hc)

/-- An entry of a directory is one more component. -/
theorem join_assemble {lead : Bytes} (hlead : IsLead lead) {cs : List Bytes}
    (h : ∀ c ∈ cs, IsPiece c) (name : Bytes) :
    join (assemble lead cs) name = assemble lead (cs ++ [name]) := by
  by_cases hcs : cs = []
  · rw [hcs, assemble, assemble, List.nil_append, List.intercalate_nil, List.intercalate_singleton,
      List.append_nil]
    rcases hlead with rfl | rfl | rfl <;> rfl
  · rcases exists_getLast_assemble lead hcs h with ⟨b, hlast, hb⟩
    simp only [join, hlast, if_neg hb]
    rw [assemble, assemble, intercalate_concat hcs, List.append_assoc]

theorem assemble_concat_ne_nil (lead : Bytes) (cs : List Bytes) {c : Bytes} (hc : c ≠ []) :
    assemble lead (cs ++ [c]) ≠ [] := by
  intro h
  have hjoined := (List.append_eq_nil_iff.1 h).2
  by_cases hcs : cs = []
  · rw [hcs, List.nil_append, List.intercalate_singleton] at hjoined
    exact hc hjoined
  · rw [intercalate_concat hcs] at hjoined
    exact absurd (List.append_eq_nil_iff.1 hjoined).2 (List.cons_ne_nil _ _)

/-- Nothing can be assembled to nothing. -/
theorem parts_eq_nil {path : FileName} (h : assemble (root path) (components path) = []) :
    root path = [] ∧ components path = [] := by
  refine ⟨(List.append_eq_nil_iff.1 h).1, ?_⟩
  rcases List.eq_nil_or_concat (components path) with hnil | ⟨init, c, hcs⟩
  · exact hnil
  · rw [List.concat_eq_append] at hcs
    have hc : c ∈ components path := by
      rw [hcs]
      exact List.mem_append_right _ List.mem_cons_self
    rw [hcs] at h
    exact absurd h (assemble_concat_ne_nil _ _ (isComponent_of_mem_components hc).ne_nil)

/-- Tidying takes the current directory away from the front. -/
theorem tidy_dot {cs : List Bytes} (h : ∀ c ∈ cs, IsComponent c) (hne : cs ≠ []) :
    tidy (assemble [] ([dot] :: cs)) = assemble [] cs := by
  have hdot : ∀ c ∈ [dot] :: cs, IsPiece c := by
    intro c hc
    rcases List.mem_cons.1 hc with rfl | hc
    · exact isPiece_dot
    · exact (h c hc).isPiece
  have hcomponents : components (assemble [] ([dot] :: cs)) = cs := by
    rw [components_eq_filter, filter_pieces_assemble (.inl rfl) hdot,
      List.filter_cons_of_neg (by decide), List.filter_eq_self]
    intro c hc
    exact bne_iff_ne.2 (h c hc).ne_dot
  rw [tidy_eq, hcomponents, root_assemble (.inl rfl) hdot, if_neg]
  rcases List.eq_nil_or_concat cs with hnil | ⟨init, c, rfl⟩
  · exact absurd hnil hne
  · rw [List.concat_eq_append] at h ⊢
    exact assemble_concat_ne_nil _ _ (h c (List.mem_append_right _ List.mem_cons_self)).ne_nil

/-- The path of a directory as a walk builds it: one below a root, reached by the
    names given. -/
def below (path : FileName) (dirs : List Bytes) : FileName :=
  dirs.foldl join (tidy path)

/-- The path of a file as a walk tells it. -/
def inside (path : FileName) (dirs : List Bytes) (name : Bytes) : FileName :=
  tidy (join (below path dirs) name)

theorem below_concat (path : FileName) (dirs : List Bytes) (name : Bytes) :
    below path (dirs ++ [name]) = join (below path dirs) name := by
  rw [below, List.foldl_append]
  rfl

/-- To go down from an assembled path is to add components. -/
theorem foldl_join_assemble {lead : Bytes} (hlead : IsLead lead) {cs dirs : List Bytes}
    (hcs : ∀ c ∈ cs, IsPiece c) (hdirs : ∀ c ∈ dirs, IsPiece c) :
    dirs.foldl join (assemble lead cs) = assemble lead (cs ++ dirs) := by
  induction dirs generalizing cs with
  | nil => rw [List.append_nil, List.foldl_nil]
  | cons d dirs ih =>
    rw [List.foldl_cons, join_assemble hlead hcs, ih, List.append_assoc, List.singleton_append]
    · intro c hc
      rcases List.mem_append.1 hc with hc | hc
      · exact hcs c hc
      · rw [List.mem_singleton.1 hc]
        exact hdirs d List.mem_cons_self
    · intro c hc
      exact hdirs c (List.mem_cons_of_mem _ hc)

section Walking

variable (path : FileName) {dirs : List Bytes} (hdirs : ∀ c ∈ dirs, IsComponent c) {name : Bytes}
  (hname : IsComponent name)

include hdirs hname

theorem isComponent_of_mem_parts :
    ∀ c ∈ components path ++ dirs ++ [name], IsComponent c := by
  intro c hc
  rw [List.mem_append, List.mem_append, List.mem_singleton] at hc
  rcases hc with (hc | hc) | rfl
  · exact isComponent_of_mem_components hc
  · exact hdirs c hc
  · exact hname

theorem isPiece_of_mem_parts : ∀ c ∈ components path ++ dirs ++ [name], IsPiece c :=
  fun c hc => (isComponent_of_mem_parts path hdirs hname c hc).isPiece

theorem isPiece_of_mem_concat : ∀ c ∈ dirs ++ [name], IsPiece c := by
  intro c hc
  rcases List.mem_append.1 hc with hc | hc
  · exact (hdirs c hc).isPiece
  · rw [List.mem_singleton.1 hc]
    exact hname.isPiece

/-- What a walk builds for an entry, if it does not start in the current directory. -/
theorem join_below_of_ne_nil (hne : assemble (root path) (components path) ≠ []) :
    join (below path dirs) name =
      assemble (root path) (components path ++ dirs ++ [name]) := by
  have hcs : ∀ c ∈ components path, IsPiece c :=
    fun c hc => (isComponent_of_mem_components hc).isPiece
  rw [← below_concat, below, tidy_eq, if_neg hne,
    foldl_join_assemble (isLead_root path) hcs (isPiece_of_mem_concat hdirs hname),
    List.append_assoc]

/-- What a walk builds for an entry, if it starts in the current directory. -/
theorem join_below_of_nil (hnil : assemble (root path) (components path) = []) :
    join (below path dirs) name = assemble [] ([dot] :: (dirs ++ [name])) := by
  have hdot : ∀ c ∈ [[dot]], IsPiece c := by
    intro c hc
    rw [List.mem_singleton.1 hc]
    exact isPiece_dot
  rw [← below_concat, below, tidy_eq, if_pos hnil]
  exact foldl_join_assemble (.inl rfl) hdot (isPiece_of_mem_concat hdirs hname)

/-- The components of a path that a walk tells. -/
theorem inside_eq :
    inside path dirs name = assemble (root path) (components path ++ dirs ++ [name]) := by
  have hparts := isComponent_of_mem_parts path hdirs hname
  by_cases hnil : assemble (root path) (components path) = []
  · -- Tidying takes away the full stop that stands for the directory of the start.
    rw [inside, join_below_of_nil path hdirs hname hnil]
    rcases parts_eq_nil hnil with ⟨hlead, hcs⟩
    rw [hcs, List.nil_append] at hparts ⊢
    rw [hlead]
    exact tidy_dot hparts (List.append_ne_nil_of_right_ne_nil _ (List.cons_ne_nil _ _))
  · rw [inside, join_below_of_ne_nil path hdirs hname hnil]
    exact tidy_assemble (isLead_root path) hparts (assemble_concat_ne_nil _ _ hname.ne_nil)

/-- What tidying does to a path that a walk builds. -/
theorem join_below :
    join (below path dirs) name = inside path dirs name ∨
      root path = [] ∧ join (below path dirs) name = dot :: slash :: inside path dirs name := by
  rw [inside_eq path hdirs hname]
  by_cases hnil : assemble (root path) (components path) = []
  · rcases parts_eq_nil hnil with ⟨hlead, hcs⟩
    refine .inr ⟨hlead, ?_⟩
    rw [join_below_of_nil path hdirs hname hnil, hlead, hcs, assemble, assemble, List.nil_append,
      List.nil_append, List.nil_append,
      List.intercalate_cons_of_ne_nil
        (List.append_ne_nil_of_right_ne_nil _ (List.cons_ne_nil _ _))]
    rfl
  · exact .inl (join_below_of_ne_nil path hdirs hname hnil)

theorem components_inside :
    components (inside path dirs name) = components path ++ dirs ++ [name] := by
  rw [inside_eq path hdirs hname]
  exact components_assemble (isLead_root path) (isComponent_of_mem_parts path hdirs hname)

@[simp] theorem baseName_inside : baseName (inside path dirs name) = name := by
  rw [baseName, components_inside path hdirs hname, List.getLast?_concat, Option.getD_some]

end Walking

/-- Different files have different paths. -/
theorem inside_inj (path : FileName) {dirs dirs' : List Bytes} {name name' : Bytes}
    (hdirs : ∀ c ∈ dirs, IsComponent c) (hname : IsComponent name)
    (hdirs' : ∀ c ∈ dirs', IsComponent c) (hname' : IsComponent name')
    (h : inside path dirs name = inside path dirs' name') : dirs = dirs' ∧ name = name' := by
  have hparts := congrArg components h
  rw [components_inside path hdirs hname, components_inside path hdirs' hname',
    List.append_assoc, List.append_assoc, List.append_cancel_left_eq] at hparts
  rcases List.append_inj' hparts rfl with ⟨hd, hn⟩
  exact ⟨hd, List.singleton_inj.1 hn⟩

/-- Tidying leaves the components alone. -/
@[simp] theorem components_tidy (path : FileName) : components (tidy path) = components path := by
  rw [tidy_eq]
  by_cases h : assemble (root path) (components path) = []
  · rw [if_pos h, (parts_eq_nil h).2]
    decide
  · rw [if_neg h]
    exact components_assemble (isLead_root path) fun _ => isComponent_of_mem_components

/-- Tidying leaves the lead alone. -/
@[simp] theorem root_tidy (path : FileName) : root (tidy path) = root path := by
  rw [tidy_eq]
  by_cases h : assemble (root path) (components path) = []
  · rw [if_pos h, (parts_eq_nil h).1]
    decide
  · rw [if_neg h]
    exact root_assemble (isLead_root path) fun _ hc => (isComponent_of_mem_components hc).isPiece

theorem root_prefix (path : FileName) : root path <+: path := by
  have hslashes : path.takeWhile (· == slash) =
      List.replicate (path.takeWhile (· == slash)).length slash :=
    List.eq_replicate_of_mem fun b hb => beq_iff_eq.1 (List.all_eq_true.1 List.all_takeWhile b hb)
  refine List.IsPrefix.trans ?_ (List.takeWhile_prefix (· == slash))
  rw [hslashes, root]
  split
  · exact List.nil_prefix
  · rename_i hlength
    rw [hlength]
    exact List.prefix_refl _
  · rename_i hlength _
    rcases Nat.exists_eq_succ_of_ne_zero hlength with ⟨n, hn⟩
    rw [hn]
    exact ⟨List.replicate n slash, rfl⟩

theorem root_eq_nil_iff (path : FileName) : root path = [] ↔ path.head? ≠ some slash := by
  constructor
  · intro h hhead
    rcases List.head?_eq_some_iff.1 hhead with ⟨text, htext⟩
    rw [htext, root, List.takeWhile_cons, if_pos (beq_self_eq_true slash), List.length_cons] at h
    split at h
    · rename_i hlength
      exact Nat.succ_ne_zero _ hlength
    · exact List.cons_ne_nil _ _ h
    · exact List.cons_ne_nil _ _ h
  · intro h
    rcases root_prefix path with ⟨text, htext⟩
    rcases isLead_root path with hroot | hroot | hroot
    · exact hroot
    · rw [hroot] at htext
      exact absurd (congrArg List.head? htext).symm h
    · rw [hroot] at htext
      exact absurd (congrArg List.head? htext).symm h

-- To leave out components makes no path longer.
theorem length_intercalate_filter_le (p : Bytes → Bool) (cs : List Bytes) :
    (List.intercalate [slash] (cs.filter p)).length ≤ (List.intercalate [slash] cs).length := by
  induction cs with
  | nil => exact Nat.le_refl _
  | cons c cs ih =>
    by_cases hcs : cs = []
    · rw [hcs, List.intercalate_singleton, List.filter_cons, List.filter_nil]
      split
      · exact Nat.le_of_eq (congrArg List.length (List.intercalate_singleton))
      · exact Nat.zero_le _
    · have hlength : (List.intercalate [slash] (c :: cs)).length =
          c.length + 1 + (List.intercalate [slash] cs).length := by
        rw [List.intercalate_cons_of_ne_nil hcs, List.length_append, List.length_append,
          List.length_singleton]
      rw [hlength, List.filter_cons]
      split
      · by_cases hrest : cs.filter p = []
        · rw [hrest, List.intercalate_singleton]
          omega
        · rw [List.intercalate_cons_of_ne_nil hrest, List.length_append, List.length_append,
            List.length_singleton]
          omega
      · omega

/-- Tidying makes no path longer. -/
theorem length_tidy_le {path : FileName} (hne : path ≠ []) : (tidy path).length ≤ path.length := by
  rcases root_prefix path with ⟨text, htext⟩
  have hcomponents : components path = components text := by
    rw [← htext, components_eq_filter, filter_pieces_lead (isLead_root path),
      ← components_eq_filter]
  have hassemble : (assemble (root path) (components path)).length ≤ path.length := by
    have hle := length_intercalate_filter_le (fun piece => piece != [] && piece != [dot])
      (pieces slash text)
    rw [intercalate_pieces] at hle
    have hlength := congrArg List.length htext
    rw [List.length_append] at hlength
    rw [assemble, List.length_append, hcomponents, components]
    omega
  rw [tidy_eq]
  split
  · exact List.length_pos_iff.2 hne
  · exact hassemble

/-- A tidy path is not empty. -/
theorem tidy_ne_nil (path : FileName) : tidy path ≠ [] := by
  rw [tidy_eq]
  by_cases h : assemble (root path) (components path) = []
  · rw [if_pos h]
    exact List.cons_ne_nil _ _
  · rw [if_neg h]
    exact h

/-- A path gets longer with every entry. -/
theorem length_lt_join (directory : FileName) {name : Bytes} (hname : name ≠ []) :
    directory.length < (join directory name).length := by
  have hpos := List.length_pos_iff.2 hname
  unfold join
  split
  · rename_i hnil
    rw [List.getLast?_eq_none_iff.1 hnil]
    exact hpos
  · split
    · rw [List.length_append]
      omega
    · rw [List.length_append, List.length_cons]
      omega

theorem length_add_le_foldl_join {dirs : List Bytes} (hdirs : ∀ c ∈ dirs, c ≠ [])
    (path : FileName) : path.length + dirs.length ≤ (dirs.foldl join path).length := by
  induction dirs generalizing path with
  | nil => exact Nat.le_refl _
  | cons d dirs ih =>
    have hlonger := length_lt_join path (hdirs d List.mem_cons_self)
    have hrest := ih (fun c hc => hdirs c (List.mem_cons_of_mem _ hc)) (join path d)
    rw [List.foldl_cons, List.length_cons]
    omega

/-- A directory that is deep has a long path. -/
theorem length_lt_below (path : FileName) {dirs : List Bytes} (hdirs : ∀ c ∈ dirs, IsComponent c) :
    dirs.length < (below path dirs).length := by
  have hpos := List.length_pos_iff.2 (tidy_ne_nil path)
  have hlength := length_add_le_foldl_join (fun c hc => (hdirs c hc).ne_nil) (tidy path)
  unfold below
  omega

section Bytewise

variable {b : UInt8} (hslash : b ≠ slash) (hdot : b ≠ dot)

include hslash

theorem mem_intercalate_iff {cs : List Bytes} :
    b ∈ List.intercalate [slash] cs ↔ ∃ c ∈ cs, b ∈ c := by
  induction cs with
  | nil => exact iff_of_false List.not_mem_nil fun ⟨c, hc, _⟩ => List.not_mem_nil hc
  | cons c cs ih =>
    simp only [List.mem_cons, exists_eq_or_imp]
    by_cases hcs : cs = []
    · rw [hcs, List.intercalate_singleton, or_iff_left fun ⟨c', hc', _⟩ => List.not_mem_nil hc']
    · rw [List.intercalate_cons_of_ne_nil hcs, List.mem_append, List.mem_append,
        List.mem_singleton, or_iff_left hslash, ih]

theorem not_mem_join {directory name : FileName} (hdirectory : b ∉ directory) (hname : b ∉ name) :
    b ∉ join directory name := by
  unfold join
  split
  · exact hname
  · split
    · rw [List.mem_append, not_or]
      exact ⟨hdirectory, hname⟩
    · rw [List.mem_append, List.mem_cons, not_or, not_or]
      exact ⟨hdirectory, hslash, hname⟩

include hdot

/-- Tidying adds and takes away solidi and full stops only. -/
theorem mem_tidy {path : FileName} : b ∈ tidy path ↔ b ∈ path := by
  have hlead : b ∉ root path := by
    rcases isLead_root path with hroot | hroot | hroot <;> rw [hroot]
    · exact List.not_mem_nil
    · exact fun hb => hslash (List.mem_singleton.1 hb)
    · rw [List.mem_cons, List.mem_singleton, or_self]
      exact hslash
  -- The pieces that are left out hold no other bytes.
  have hpieces : b ∈ path ↔ ∃ c ∈ components path, b ∈ c := by
    constructor
    · intro hb
      rw [← intercalate_pieces slash path, mem_intercalate_iff hslash] at hb
      rcases hb with ⟨c, hc, hb⟩
      refine ⟨c, List.mem_filter.2 ⟨hc, ?_⟩, hb⟩
      rw [Bool.and_eq_true, bne_iff_ne, bne_iff_ne]
      constructor <;> rintro rfl
      · exact List.not_mem_nil hb
      · exact hdot (List.mem_singleton.1 hb)
    · rintro ⟨c, hc, hb⟩
      have hmem : c ∈ pieces slash path := (List.mem_filter.1 hc).1
      exact mem_of_mem_pieces hmem hb
  have hassemble : b ∈ assemble (root path) (components path) ↔ b ∈ path := by
    rw [assemble, List.mem_append, or_iff_right hlead, mem_intercalate_iff hslash, hpieces]
  rw [tidy_eq, ← hassemble]
  by_cases hnil : assemble (root path) (components path) = []
  · rw [if_pos hnil, hnil, List.mem_singleton]
    exact iff_of_false hdot List.not_mem_nil
  · rw [if_neg hnil]

theorem not_mem_tidy {path : FileName} (h : b ∉ path) : b ∉ tidy path :=
  mt (mem_tidy hslash hdot).1 h

theorem not_mem_below {path : FileName} (h : b ∉ path) {dirs : List Bytes}
    (hdirs : ∀ d ∈ dirs, b ∉ d) : b ∉ below path dirs := by
  have hfold : ∀ directory : FileName, b ∉ directory → b ∉ dirs.foldl join directory := by
    induction dirs with
    | nil => exact fun directory hdirectory => hdirectory
    | cons d dirs ih =>
      intro directory hdirectory
      refine ih (fun d' hd' => hdirs d' (List.mem_cons_of_mem _ hd')) _ ?_
      exact not_mem_join hslash hdirectory (hdirs d List.mem_cons_self)
  exact hfold _ (not_mem_tidy hslash hdot h)

theorem not_mem_inside {path : FileName} (h : b ∉ path) {dirs : List Bytes}
    (hdirs : ∀ d ∈ dirs, b ∉ d) {name : Bytes} (hname : b ∉ name) : b ∉ inside path dirs name :=
  not_mem_tidy hslash hdot (not_mem_join hslash (not_mem_below hslash hdot h hdirs) hname)

end Bytewise

end FileName

end ConfIndent
