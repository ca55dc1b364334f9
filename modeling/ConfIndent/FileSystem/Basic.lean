import ConfIndent.SystemError

/-!
# The File System

What stands where. A location is the list of names that lead to it from the root,
without links and without steps back, so an entry has exactly one location. The
root is always a directory; everything else is listed with its location.

Names as users write them are another matter: they may start at the working
directory, step back and pass through links. What a name leads to is the subject
of `FileSystem.Resolve`, and nothing here depends on it.

## Main definitions

* `Location`: The place of an entry.
* `Entry`: What stands at a location.
* `FileSystem`: All entries, and the working directory.
* `FileSystem.get?`: What stands at a location.
* `FileSystem.put`: Puts an entry at a location.
* `FileSystem.children`: The entries of a directory.

## Theorems

* `FileSystem.get?_put`: Putting an entry at a location changes nothing else.
-/

namespace ConfIndent

/-- The names that lead to an entry from the root. -/
abbrev Location := List Bytes

/-- What stands at a location. -/
inductive Entry where
  /-- A directory. -/
  | directory
  /-- A file and the bytes it holds. -/
  | file (content : Bytes)
  /-- A symbolic link and the name it holds. -/
  | link (target : FileName)
  deriving DecidableEq, Repr

/-- All entries except the root, and the working directory. -/
structure FileSystem where
  /-- The entries by location. If a location is listed twice, the first counts. -/
  entries : List (Location × Entry)
  /-- Where names that do not start at the root do start. -/
  workDir : Location
  deriving DecidableEq, Repr

namespace FileSystem

/-- What stands at a location. -/
def get? (fs : FileSystem) (l : Location) : Option Entry :=
  if l = [] then some .directory else fs.entries.lookup l

/-- Replaces the entry listed for a location, or lists one. -/
def putEntry (l : Location) (e : Entry) : List (Location × Entry) → List (Location × Entry)
  | [] => [(l, e)]
  | (k, x) :: rest => if k = l then (l, e) :: rest else (k, x) :: putEntry l e rest

/-- Puts an entry at a location. -/
def put (fs : FileSystem) (l : Location) (e : Entry) : FileSystem :=
  { fs with entries := putEntry l e fs.entries }

/-- Takes away a location and everything below it. -/
def remove (fs : FileSystem) (l : Location) : FileSystem :=
  { fs with entries := fs.entries.filter fun (k, _) => !l.isPrefixOf k }

/-- The names and entries of a directory. -/
def children (fs : FileSystem) (l : Location) : List (Bytes × Entry) :=
  fs.entries.filterMap fun (k, e) =>
    match k.getLast? with
    | some name => if k.dropLast = l then some (name, e) else none
    | none => none

/-- A file system that holds a working directory and nothing else. -/
def empty (workDir : Location) : FileSystem where
  entries := (List.range workDir.length).map fun n => (workDir.take (n + 1), .directory)
  workDir := workDir

theorem lookup_putEntry (l k : Location) (e : Entry) (entries : List (Location × Entry)) :
    (putEntry l e entries).lookup k = if k = l then some e else entries.lookup k := by
  induction entries with
  | nil =>
    by_cases h : k = l
    · simp only [putEntry, h, List.lookup_cons, beq_self_eq_true, if_true]
    · simp only [putEntry, List.lookup_cons, beq_eq_false_iff_ne.2 h, List.lookup_nil, h, if_false]
  | cons x rest ih =>
    rcases x with ⟨j, x⟩
    rw [putEntry]
    by_cases hj : j = l
    · rw [if_pos hj, List.lookup_cons, List.lookup_cons, hj]
      by_cases h : k = l
      · rw [h, beq_self_eq_true, if_pos rfl]
      · rw [beq_eq_false_iff_ne.2 h, if_neg h]
    · rw [if_neg hj, List.lookup_cons, List.lookup_cons, ih]
      by_cases h : k = l
      · rw [h, beq_eq_false_iff_ne.2 (Ne.symm hj), if_pos rfl]
      · rw [if_neg h, if_neg h]

/-- Putting an entry at a location changes nothing else. -/
theorem get?_put (fs : FileSystem) {l : Location} (hl : l ≠ []) (e : Entry) (k : Location) :
    (fs.put l e).get? k = if k = l then some e else fs.get? k := by
  rw [get?, get?, put, lookup_putEntry]
  by_cases hk : k = []
  · rw [if_pos hk, if_pos hk, if_neg]
    rintro rfl
    exact hl hk
  · rw [if_neg hk, if_neg hk]

end FileSystem

end ConfIndent
