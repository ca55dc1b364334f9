import ConfIndent.Proofs.FileSystem.Resolve

/-!
# Well-Formed File Systems

A file system is a tree, and a list of locations need not be one. It is, as far as
walks are concerned, if no location is listed twice and every name in a location is
one that an entry may have. Then what is listed for a directory is what stands
below it, each entry under its own name.

## Main definitions

* `FileSystem.WellFormed`: No location is listed twice, and all names are names.

## Theorems

* `FileSystem.WellFormed.mem_children_iff`: What is listed for a directory.
* `FileSystem.WellFormed.nodup_children`: No name is listed twice for a directory.
-/

namespace ConfIndent

namespace FileSystem

/-- No location is listed twice, and all names are names that entries may have. -/
structure WellFormed (fs : FileSystem) : Prop where
  nodup : (fs.entries.map Prod.fst).Nodup
  isName : ∀ entry ∈ fs.entries, ∀ name ∈ entry.1, IsName name

/-- The name that a location has in a directory. -/
def nameIn (l k : Location) : Option Bytes :=
  k.getLast?.bind fun name => if k.dropLast = l then some name else none

theorem nameIn_eq_some_iff {l k : Location} {name : Bytes} :
    nameIn l k = some name ↔ k = l ++ [name] := by
  unfold nameIn
  rcases List.eq_nil_or_concat k with rfl | ⟨init, last, rfl⟩
  · -- The root has no name.
    refine iff_of_false (Option.some_ne_none name).symm ?_
    intro h
    exact absurd (List.append_eq_nil_iff.1 h.symm).2 (List.cons_ne_nil _ _)
  · rw [List.concat_eq_append, List.getLast?_concat, Option.bind_some, List.dropLast_concat]
    by_cases hinit : init = l
    · rw [if_pos hinit, hinit, Option.some_inj, List.append_cancel_left_eq, List.singleton_inj]
    · rw [if_neg hinit]
      refine iff_of_false (Option.some_ne_none name).symm ?_
      intro h
      exact hinit (List.append_inj' h rfl).1

theorem children_eq (fs : FileSystem) (l : Location) :
    fs.children l = fs.entries.filterMap fun (k, e) => (nameIn l k).map fun name => (name, e) := by
  unfold children
  congr 1
  funext entry
  rcases entry with ⟨k, e⟩
  simp only [nameIn]
  cases k.getLast? with
  | none => rfl
  | some name =>
    simp only [Option.bind_some]
    split <;> rfl

/-- The entries of a directory are those one step below it. -/
theorem mem_children {fs : FileSystem} {l : Location} {name : Bytes} {e : Entry} :
    (name, e) ∈ fs.children l ↔ (l ++ [name], e) ∈ fs.entries := by
  rw [children_eq, List.mem_filterMap]
  constructor
  · rintro ⟨⟨k, x⟩, hmem, hname⟩
    rcases Option.map_eq_some_iff.1 hname with ⟨name', hname', heq⟩
    rw [Prod.mk.injEq] at heq
    rw [nameIn_eq_some_iff] at hname'
    rw [← heq.1, ← heq.2, ← hname']
    exact hmem
  · intro hmem
    refine ⟨(l ++ [name], e), hmem, ?_⟩
    simp only [nameIn_eq_some_iff.2 rfl, Option.map_some]

theorem lookup_eq_some_iff {entries : List (Location × Entry)}
    (h : (entries.map Prod.fst).Nodup) {l : Location} {e : Entry} :
    entries.lookup l = some e ↔ (l, e) ∈ entries := by
  induction entries with
  | nil => exact iff_of_false (Option.some_ne_none e).symm List.not_mem_nil
  | cons entry entries ih =>
    rcases entry with ⟨k, x⟩
    rw [List.map_cons, List.nodup_cons] at h
    rw [List.lookup_cons, List.mem_cons, Prod.mk.injEq]
    by_cases hk : l = k
    · rw [beq_iff_eq.2 hk]
      simp only [Option.some_inj]
      constructor
      · intro hx
        exact .inl ⟨hk, hx.symm⟩
      · rintro (⟨-, hx⟩ | hmem)
        · exact hx.symm
        · -- The location would be listed twice.
          rw [hk] at hmem
          exact absurd (List.mem_map_of_mem hmem) h.1
    · rw [beq_eq_false_iff_ne.2 hk]
      simp only [hk, false_and, false_or]
      exact ih h.2

namespace WellFormed

variable {fs : FileSystem} (h : fs.WellFormed)

include h

/-- What is listed for a directory is what stands below it. -/
theorem mem_children_iff {l : Location} {name : Bytes} {e : Entry} :
    (name, e) ∈ fs.children l ↔ fs.get? (l ++ [name]) = some e := by
  have hne : l ++ [name] ≠ [] := List.append_ne_nil_of_right_ne_nil _ (List.cons_ne_nil _ _)
  rw [mem_children, get?, if_neg hne, lookup_eq_some_iff h.nodup]

/-- No name is listed twice for a directory. -/
theorem nodup_children (l : Location) : ((fs.children l).map Prod.fst).Nodup := by
  have hdistinct := h.nodup
  rw [List.Nodup, List.pairwise_map] at hdistinct ⊢
  rw [children_eq]
  refine List.Pairwise.filterMap _ ?_ hdistinct
  rintro ⟨k, x⟩ ⟨k', x'⟩ hne child hchild child' hchild' heq
  -- Entries under one name would be listed at one location.
  rcases Option.map_eq_some_iff.1 hchild with ⟨name, hname, rfl⟩
  rcases Option.map_eq_some_iff.1 hchild' with ⟨name', hname', rfl⟩
  rw [nameIn_eq_some_iff] at hname hname'
  dsimp only at heq hne
  exact hne (by rw [hname, hname', heq])

theorem isName_of_get? {l : Location} {name : Bytes} {e : Entry}
    (hget : fs.get? (l ++ [name]) = some e) : IsName name := by
  rw [← h.mem_children_iff, mem_children] at hget
  exact h.isName _ hget name (List.mem_append_right _ List.mem_cons_self)

end WellFormed

end FileSystem

end ConfIndent
