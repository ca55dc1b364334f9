import ConfIndent.FileSystem.Calls

/-!
# Building File Systems

Changes by which a file system is set up and looked at as a whole. They make the
directories they need, so that a file system can be written down as a list of
files and links.

## Main definitions

* `FileSystem.makeDirectories`: A directory and those above it.
* `FileSystem.putFile`, `FileSystem.putLink`: A file or link and the directories
  above it.
* `FileSystem.delete`: Takes away a name and all below it.
* `FileSystem.tree`: All that is below the working directory.
-/

namespace ConfIndent.FileSystem

open Bytes

/-- The name up to the last component, or the current directory if there is only
    one. -/
def parentName (name : FileName) : FileName :=
  match (name.reverse.dropWhile (· != slash)).reverse with
  | [] => [dot]
  | parent => parent

/-- The beginnings of a name, each ending with one of its components. -/
def beginnings (name : FileName) : List FileName :=
  let root := FileName.root name
  let components := FileName.components name
  (List.range components.length).map fun n =>
    root ++ List.intercalate [slash] (components.take (n + 1))

/-- Makes a directory unless the name is taken. -/
def makeDirectory (fs : FileSystem) (name : FileName) : Except Cause FileSystem :=
  match fs.locate .read name with
  | .error c => .error c
  | .ok (.taken _) => .ok fs
  | .ok (.free directory base) => .ok (fs.put (directory ++ [base]) .directory)

/-- Makes a directory and those above it. -/
def makeDirectories (fs : FileSystem) (name : FileName) : Except Cause FileSystem :=
  (beginnings name).foldlM makeDirectory fs

/-- Puts a file and makes the directories above it. -/
def putFile (fs : FileSystem) (name : FileName) (content : Bytes) : Except Cause FileSystem := do
  let fs ← fs.makeDirectories (parentName name)
  fs.write name content

/-- Puts a link and makes the directories above it. -/
def putLink (fs : FileSystem) (name target : FileName) : Except Cause FileSystem := do
  let fs ← fs.makeDirectories (parentName name)
  match ← fs.locate .inspect name with
  | .taken l => return fs.put l (.link target)
  | .free directory base => return fs.put (directory ++ [base]) (.link target)

/-- Takes away what a name leads to, without following a link, and all below
    it. -/
def delete (fs : FileSystem) (name : FileName) : Except Cause FileSystem := do
  match ← fs.locate .inspect name with
  | .taken l => return fs.remove l
  | .free _ _ => throw .missing

/-- All that is below the working directory, by its path from there and in order
    of the paths. Links are not followed. -/
def tree (fs : FileSystem) : List (FileName × Entry) :=
  let below := fs.entries.filterMap fun (l, e) =>
    if fs.workDir.isPrefixOf l && l.length != fs.workDir.length then
      some (List.intercalate [slash] (l.drop fs.workDir.length), e)
    else none
  below.mergeSort fun a b => FileName.before a.1 b.1

end ConfIndent.FileSystem
