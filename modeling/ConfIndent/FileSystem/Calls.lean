import ConfIndent.FileSystem.Resolve

/-!
# Calls on the File System

The calls by which names are used: telling what is there, reading and writing a
file, and listing a directory. Each either fails for a cause or gives its result;
writing gives the file system as it is afterwards.

## Main definitions

* `FileSystem.stat`: What a name leads to, through links.
* `FileSystem.read`: The content of a file.
* `FileSystem.write`: The file system after a file was written.
* `FileSystem.list`: The entries of a directory.
-/

namespace ConfIndent.FileSystem

/-- The entry at a spot; a spot that is free has none. -/
def entryAt (fs : FileSystem) : Spot → Except Cause Entry
  | .taken l =>
    match fs.get? l with
    | some e => .ok e
    | none => .error .missing
  | .free _ _ => .error .missing

/-- What a name leads to, through links. -/
def stat (fs : FileSystem) (name : FileName) : Except Cause Entry :=
  (fs.locate .read name).bind fs.entryAt

/-- The name itself leads to a link. -/
def isLink (fs : FileSystem) (name : FileName) : Bool :=
  match (fs.locate .inspect name).bind fs.entryAt with
  | .ok (.link _) => true
  | _ => false

/-- The content of a file. -/
def read (fs : FileSystem) (name : FileName) : Except Cause Bytes :=
  match fs.stat name with
  | .ok (.file content) => .ok content
  | .ok _ => .error .isDirectory
  | .error c => .error c

/-- The file system after a file was written. A file that is not there is
    created. -/
def write (fs : FileSystem) (name : FileName) (content : Bytes) : Except Cause FileSystem :=
  match fs.locate .create name with
  | .error c => .error c
  | .ok (.free directory base) => .ok (fs.put (directory ++ [base]) (.file content))
  | .ok (.taken l) =>
    match fs.get? l with
    | some (.file _) => .ok (fs.put l (.file content))
    | _ => .error .isDirectory

/-- The entries of a directory. -/
def list (fs : FileSystem) (name : FileName) : Except Cause (List (Bytes × Entry)) :=
  match fs.locate .read name with
  | .error c => .error c
  | .ok (.free _ _) => .error .missing
  | .ok (.taken l) =>
    match fs.get? l with
    | some .directory => .ok (fs.children l)
    | _ => .error .notDirectory

end ConfIndent.FileSystem
