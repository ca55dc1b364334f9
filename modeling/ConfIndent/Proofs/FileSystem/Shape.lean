import ConfIndent.Proofs.FileSystem.Descend

/-!
# The Shape of a File System

What is left of a file system when the content of its files is forgotten:
directories, links, and the places of files. Everything but reading sees the
shape only. Where a name leads, what a directory holds and which of its entries
are links stays the same as long as the shape does.

The shape is a file system itself, one whose files are empty. So that a call
sees only the shape is said by an equation: on the shape it gives what it gives
on the file system, with contents forgotten where it gives entries.

Writing a file that can be read changes its content and nothing else. Writing
could also create a file, when the name leads to a free place, but then there is
nothing to read.

## Main definitions

* `FileSystem.shape`: A file system without the content of its files.

## Theorems

* `FileSystem.get?_shape`: What stands at a location of the shape.
* `FileSystem.locate_shape`: Names lead to the same places.
* `FileSystem.stat_shape`, `FileSystem.isLink_shape`, `FileSystem.list_shape`:
  Calls see the same things.
* `FileSystem.read_shape`: The same files can be read.
* `FileSystem.shape_put`: Replacing the content of a file keeps the shape.
-/

namespace ConfIndent

/-- An entry without the content of a file. -/
def Entry.shape : Entry → Entry
  | directory => directory
  | file _ => file []
  | link target => link target

namespace FileSystem

/-- A file system without the content of its files. -/
def shape (fs : FileSystem) : FileSystem :=
  { fs with entries := fs.entries.map fun (l, e) => (l, e.shape) }

theorem lookup_map_shape (entries : List (Location × Entry)) (l : Location) :
    (entries.map fun (k, e) => (k, e.shape)).lookup l = (entries.lookup l).map Entry.shape := by
  induction entries with
  | nil => rfl
  | cons entry entries ih =>
    rcases entry with ⟨k, e⟩
    rw [List.map_cons, List.lookup_cons, List.lookup_cons, ih]
    by_cases h : l == k
    · rw [h]
      rfl
    · rw [Bool.not_eq_true] at h
      rw [h]

@[simp] theorem get?_shape (fs : FileSystem) (l : Location) :
    fs.shape.get? l = (fs.get? l).map Entry.shape := by
  unfold get? shape
  by_cases h : l = []
  · rw [if_pos h, if_pos h]
    rfl
  · rw [if_neg h, if_neg h, lookup_map_shape]

/-- Where there is a file, there is one in every file system of the same shape. -/
theorem exists_file_of_shape {fs fs' : FileSystem} (h : fs.shape = fs'.shape) {l : Location}
    {content : Bytes} (hget : fs.get? l = some (.file content)) :
    ∃ content', fs'.get? l = some (.file content') := by
  have hshape := get?_shape fs' l
  rw [← h, get?_shape, hget] at hshape
  rcases hget' : fs'.get? l with _ | _ | content' | _
  · rw [hget'] at hshape
    cases hshape
  · rw [hget'] at hshape
    cases hshape
  · exact ⟨content', rfl⟩
  · rw [hget'] at hshape
    cases hshape

/-- The steps of a route are seen by the shape. -/
theorem descend_shape (fs : FileSystem) (purpose : Purpose)
    (follow : Location → List Step → Bool → Except Cause Spot) (slashed : Bool) (here : Location)
    (steps : List Step) :
    descend fs.shape purpose follow slashed here steps =
      descend fs purpose follow slashed here steps := by
  induction steps generalizing here with
  | nil => rfl
  | cons s steps ih =>
    cases s with
    | stay => exact ih here
    | up => exact ih here.dropLast
    | enter name =>
      rw [descend, descend, get?_shape]
      -- The content of a file that is entered is not looked at.
      rcases fs.get? (here ++ [name]) with _ | _ | _ | _
      · rfl
      · simp only [Option.map_some, Entry.shape, ih]
      · rfl
      · rfl

theorem resolve_shape (fs : FileSystem) (purpose : Purpose) (links : Nat) :
    resolve fs.shape purpose links = resolve fs purpose links := by
  induction links with
  | zero =>
    funext here steps slashed
    rw [resolve, resolve, descend_shape]
  | succ links ih =>
    funext here steps slashed
    rw [resolve, resolve, descend_shape, ih]

@[simp] theorem locate_shape (fs : FileSystem) (purpose : Purpose) (name : FileName) :
    fs.shape.locate purpose name = fs.locate purpose name := by
  rw [locate, locate, resolve_shape]
  rfl

theorem entryAt_shape (fs : FileSystem) (spot : Spot) :
    fs.shape.entryAt spot = (fs.entryAt spot).map Entry.shape := by
  cases spot with
  | free directory name => rfl
  | taken l =>
    rw [entryAt, entryAt, get?_shape]
    cases fs.get? l <;> rfl

@[simp] theorem stat_shape (fs : FileSystem) (name : FileName) :
    fs.shape.stat name = (fs.stat name).map Entry.shape := by
  rw [stat, stat, locate_shape]
  cases fs.locate .read name with
  | error c => rfl
  | ok spot => exact entryAt_shape fs spot

@[simp] theorem isLink_shape (fs : FileSystem) (name : FileName) :
    fs.shape.isLink name = fs.isLink name := by
  rw [isLink, isLink, locate_shape]
  cases fs.locate .inspect name with
  | error c => rfl
  | ok spot =>
    simp only [Except.bind, entryAt_shape]
    rcases fs.entryAt spot with c | e
    · rfl
    · cases e <;> rfl

theorem children_shape (fs : FileSystem) (l : Location) :
    fs.shape.children l = (fs.children l).map fun (name, e) => (name, e.shape) := by
  unfold children shape
  rw [List.filterMap_map, List.map_filterMap]
  congr 1
  funext entry
  rcases entry with ⟨k, e⟩
  simp only [Function.comp_apply]
  -- Which entries are listed depends on their locations alone.
  cases k.getLast? with
  | none => rfl
  | some name =>
    simp only []
    split <;> rfl

@[simp] theorem list_shape (fs : FileSystem) (name : FileName) :
    fs.shape.list name = (fs.list name).map (List.map fun (name, e) => (name, e.shape)) := by
  rw [list, list, locate_shape]
  rcases fs.locate .read name with c | (l | _)
  · rfl
  · simp only [get?_shape]
    rcases fs.get? l with _ | _ | _ | _
    · rfl
    · simp only [Option.map_some, Entry.shape, children_shape]
      rfl
    · rfl
    · rfl
  · rfl

@[simp] theorem read_shape (fs : FileSystem) (name : FileName) :
    fs.shape.read name = (fs.read name).map fun _ => [] := by
  rw [read, read, stat_shape]
  rcases fs.stat name with c | _ | _ | _ <;> rfl

/-- A file that can be read stands somewhere. -/
theorem exists_of_read {fs : FileSystem} {name : FileName} {content : Bytes}
    (h : fs.read name = .ok content) :
    ∃ l, fs.locate .read name = .ok (.taken l) ∧ fs.get? l = some (.file content) := by
  unfold read stat at h
  rcases hlocate : fs.locate .read name with c | (l | ⟨directory, base⟩)
  · rw [hlocate] at h
    exact absurd h (by simp only [Except.bind, reduceCtorEq, not_false_eq_true])
  · rw [hlocate] at h
    simp only [Except.bind, entryAt] at h
    rcases hget : fs.get? l with _ | _ | found | _
    · rw [hget] at h
      exact absurd h (by simp only [reduceCtorEq, not_false_eq_true])
    · rw [hget] at h
      exact absurd h (by simp only [reduceCtorEq, not_false_eq_true])
    · rw [hget] at h
      exact ⟨l, rfl, by rw [hget, Except.ok.inj h]⟩
    · rw [hget] at h
      exact absurd h (by simp only [reduceCtorEq, not_false_eq_true])
  · rw [hlocate] at h
    exact absurd h (by simp only [Except.bind, entryAt, reduceCtorEq, not_false_eq_true])

theorem read_eq_of_locate {fs : FileSystem} {name : FileName} {l : Location} {content : Bytes}
    (hlocate : fs.locate .read name = .ok (.taken l)) (hget : fs.get? l = some (.file content)) :
    fs.read name = .ok content := by
  simp only [read, stat, hlocate, Except.bind, entryAt, hget]

theorem ne_nil_of_get?_file {fs : FileSystem} {l : Location} {content : Bytes}
    (h : fs.get? l = some (.file content)) : l ≠ [] := by
  rintro rfl
  exact absurd h (by simp only [get?, if_true, Option.some_inj, reduceCtorEq, not_false_eq_true])

/-- To put a file in the place of a file leaves the shape alone. -/
theorem map_shape_putEntry {entries : List (Location × Entry)} {l : Location} {old : Bytes}
    (h : entries.lookup l = some (.file old)) (new : Bytes) :
    (putEntry l (.file new) entries).map (fun (k, e) => (k, e.shape)) =
      entries.map fun (k, e) => (k, e.shape) := by
  induction entries with
  | nil => exact absurd h (by simp only [List.lookup_nil, reduceCtorEq, not_false_eq_true])
  | cons entry entries ih =>
    rcases entry with ⟨k, e⟩
    rw [putEntry]
    by_cases hk : k = l
    · rw [hk, List.lookup_cons_self, Option.some_inj] at h
      rw [if_pos hk, List.map_cons, List.map_cons, h, hk]
      rfl
    · rw [List.lookup_cons, beq_eq_false_iff_ne.2 (Ne.symm hk)] at h
      rw [if_neg hk, List.map_cons, List.map_cons, ih h]

/-- Replacing the content of a file keeps the shape. -/
theorem shape_put {fs : FileSystem} {l : Location} {old : Bytes}
    (h : fs.get? l = some (.file old)) (new : Bytes) :
    (fs.put l (.file new)).shape = fs.shape := by
  have hlookup : fs.entries.lookup l = some (.file old) := by
    rw [get?, if_neg (ne_nil_of_get?_file h)] at h
    exact h
  rw [shape, put, map_shape_putEntry hlookup, shape]

end FileSystem

end ConfIndent
