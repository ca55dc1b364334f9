import ConfIndent.Batch.Process

/-!
# Walking Directories

A directory stands for the files below it whose names end as asked and do not
start with a full stop. In each directory its files come first, in order of their
names, and then its subdirectories, one after the other in the same order.
Links to files count as files; links to directories are not entered, so a walk
cannot run in circles. Hidden directories are entered.

The walk looks at a directory only when it gets there, and a file is visited
before the next one is looked at. A directory that cannot be listed is noted and
the walk goes on behind it. A name that cannot be looked up is not foreseen and
stops everything.

A path grows with every directory entered and cannot be listed once it is too
long, which bounds how deep a walk can get.

## Main definitions

* `Crash`: What stops a batch.
* `isConfFile`: A name leads to a file that is to be formatted.
* `walk`: Visits the files below a directory.
* `walkFiles`: The files below a directory and the directories passed over.
-/

namespace ConfIndent

open Bytes

/-- What stops a batch. -/
inductive Crash where
  /-- A call failed where no failure was foreseen. -/
  | system (reason : SystemError)
  /-- A name holds a null byte and is no name for any call. -/
  | nullInName
  /-- There is no ending to tell the files by. -/
  | noSuffix
  deriving DecidableEq, Repr

/-- The text of a crash. -/
def Crash.message : Crash → String
  | system reason => reason.message
  | nullInName => nullInNameMessage
  | noSuffix => "endswith first arg must be str or a tuple of str, not list"

/-- The ending of the names of files to format. It may be missing, which is
    noticed when the first name is compared. -/
abbrev Suffix := Option FileName

namespace Action

/-- What a name leads to, if anything. -/
def probe (faults : Faults) (name : FileName) : Action Crash (Option Entry) := do
  if 0 ∈ name then return none
  match faults.probe (← get).files name with
  | .ok e => return e
  | .error c => throw (.system ⟨c, some name⟩)

/-- The name leads to a directory. -/
def isDirectory (faults : Faults) (name : FileName) : Action Crash Bool :=
  return (← probe faults name) = some .directory

/-- The name leads to a file. -/
def isFile (faults : Faults) (name : FileName) : Action Crash Bool := do
  match ← probe faults name with
  | some (.file _) => return true
  | _ => return false

/-- The name itself leads to a link. This is asked of directories only, and one that
    cannot be looked up is none. -/
def isLink (name : FileName) : Action Crash Bool :=
  return (← get).files.isLink name

/-- The entries of a directory, or why it cannot be listed. -/
def list (faults : Faults) (name : FileName) :
    Action Crash (Except SystemError (List (Bytes × Entry))) := do
  if name ∈ faults.unlistable then return .error ⟨.denied, some name⟩
  if 0 ∈ name then throw .nullInName
  match (← get).files.list name with
  | .ok entries => return .ok entries
  | .error c => return .error ⟨c, some name⟩

end Action

/-- A path leads to a file that is to be formatted: a visible one whose name ends
    as asked. -/
def isConfFile (suffix : Suffix) (path : FileName) (faults : Faults := {}) :
    Action Crash Bool := do
  if ! (← Action.isFile faults path.tidy) then return false
  if path.baseName.isHidden then return false
  match suffix with
  | none => throw .noSuffix
  | some suffix => return path.baseName.endsIn suffix

/-- The entry is taken for a directory. A link is one if it leads to one; a link
    that cannot be followed is taken for a file. -/
def entersAs (faults : Faults) (files : FileSystem) (directory : FileName) :
    Bytes × Entry → Bool
  | (_, .directory) => true
  | (_, .file _) => false
  | (name, .link _) =>
    match faults.stat files (FileName.join directory name) with
    | .ok .directory => true
    | _ => false

/-- Visits the files in a directory that are to be formatted. -/
def visitFiles {β : Type} (faults : Faults) (suffix : Suffix) (visit : FileName → Action Crash β)
    (directory : FileName) : List Bytes → Action Crash (List β)
  | [] => return []
  | name :: rest => do
    let path := (FileName.join directory name).tidy
    if ← isConfFile suffix path faults then
      let first ← visit path
      return first :: (← visitFiles faults suffix visit directory rest)
    else
      visitFiles faults suffix visit directory rest

/-- Visits the files below a directory that are to be formatted, no more than the
    given number of directories deep. -/
def walkWithin {β : Type} (faults : Faults) (suffix : Suffix) (visit : FileName → Action Crash β)
    (passOver : SystemError → β) : Nat → FileName → Action Crash (List β)
  | 0, _ => return []
  | depth + 1, directory => do
    match ← Action.list faults directory with
    | .error reason => return [passOver reason]
    | .ok entries =>
      let files := (← get).files
      let (subdirectories, others) := entries.partition (entersAs faults files directory)
      let here ← visitFiles faults suffix visit directory (FileName.sort (others.map Prod.fst))
      let below ← (FileName.sort (subdirectories.map Prod.fst)).mapM fun name => do
        let path := FileName.join directory name
        if ← Action.isLink path then return []
        walkWithin faults suffix visit passOver depth path
      return here ++ below.flatten

/-- Visits the files below a directory that are to be formatted. `passOver` says
    what becomes of a directory that cannot be listed. -/
def walk {β : Type} (faults : Faults) (suffix : Suffix) (visit : FileName → Action Crash β)
    (passOver : SystemError → β) (root : FileName) : Action Crash (List β) :=
  walkWithin faults suffix visit passOver FileSystem.maxName root.tidy

/-- The files below a directory that are to be formatted, and the directories that
    cannot be listed, in the order of the walk. -/
def walkFiles (faults : Faults) (suffix : Suffix) (root : FileName) :
    Action Crash (List (Except SystemError FileName)) :=
  walk faults suffix (fun path => return .ok path) .error root

end ConfIndent
