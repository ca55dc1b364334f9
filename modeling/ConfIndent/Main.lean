import ConfIndent.CommandLine.Command
import ConfIndent.FileSystem.Edit

/-!
# The Program

The program on a real machine. What it does is said elsewhere; here the part of
the disk that a command line names is read into a `FileSystem`, `execute` runs on
that, and what comes out is written to the disk and to the streams.

Only what a run can ask for is read: the names given, what links among them lead
to, and below each directory its subdirectories and the files to format. Calls
that the machine refuses become the faults of the run.

## Main definitions

* `Disk.Snapshot`: What was read of the disk.
* `Disk.load`: Reads what a run with given settings can ask for.
* `Disk.save`: Writes the files that a run has changed.
* `main`: The program.
-/

namespace ConfIndent.Disk

open Bytes

/-- What was read of the disk. -/
structure Snapshot where
  /-- The entries read. -/
  files : FileSystem
  /-- The calls that the machine refuses. -/
  faults : Faults := {}

/-- A computation that reads from the disk. -/
abbrev Reading (α : Type) := StateT Snapshot IO α

/-- A name as the machine takes it. -/
def text (name : FileName) : String :=
  String.ofList (Utf8.decodeLossy name)

/-- Bytes as the machine takes them. -/
def array (bytes : Bytes) : ByteArray :=
  ⟨bytes.toArray⟩

/-- Adds an entry to what was read. -/
def keep (edit : FileSystem → Except Cause FileSystem) : Reading Unit :=
  modify fun s => { s with files := (edit s.files).toOption.getD s.files }

/-- Adds a fault to what was read. -/
def blame (fault : Faults → Faults) : Reading Unit :=
  modify fun s => { s with faults := fault s.faults }

/-- The name of an entry without links on the way, or nothing if the machine does
    not get there. -/
def real? (name : FileName) : Reading (Option FileName) := do
  match ← (IO.FS.realPath (text name)).toBaseIO with
  | .ok path => return some (FileName.ofString path.toString)
  | .error _ => return none

/-- The kind of entry a name leads to. A link is one only if it is not to be
    followed. -/
def kind? (name : FileName) (follow : Bool) : Reading (Option IO.FS.FileType) := do
  let path := (← IO.currentDir) / text name
  let answer ← if follow then path.metadata.toBaseIO else path.symlinkMetadata.toBaseIO
  return answer.toOption.map IO.FS.Metadata.type

/-- Finds out whether a name may not be looked up at all. -/
def checkLookup (name : FileName) : Reading Unit := do
  let cause? :=
    match ← ((← IO.currentDir) / text name).metadata.toBaseIO with
    | .error (.permissionDenied ..) => some Cause.denied
    | .error (.hardwareFault ..) => some Cause.inputOutput
    | _ => none
  if let some c := cause? then
    blame fun f => { f with untraceable := (name.tidy, c) :: f.untraceable }

/-- Reads the file that a name leads to. -/
def loadFile (writing : Bool) (name : FileName) : Reading Unit := do
  let some place ← real? name | return
  match ← (IO.FS.readBinFile (text name)).toBaseIO with
  | .ok content => keep (·.putFile place content.toList)
  | .error _ =>
    keep (·.putFile place [])
    blame fun f => { f with unopenable := name :: f.unopenable }
  if writing then
    if let .error _ ← (IO.FS.Handle.mk (text name) .readWrite).toBaseIO then
      blame fun f => { f with unwritable := name :: f.unwritable }

/-- A name leads in circles, as far as the machine says why it gets nowhere. -/
def isLoop (name : FileName) : Reading Bool := do
  match ← ((← IO.currentDir) / text name).metadata.toBaseIO with
  | .error (.noFileOrDirectory ..) => return false
  | .error _ => return true
  | .ok _ => return false

/-- Reads the link that a name leads to. It is kept as a link to the place where it
    ends. One that leads in circles is kept as a link to itself, and one that ends
    nowhere is left out, since nothing can be read there either way. -/
def loadLink (name : FileName) : Reading Unit := do
  let some directory ← real? (FileSystem.parentName name) | return
  let place := FileName.join directory name.baseName
  match ← real? name with
  | none =>
    if ← isLoop name then
      keep (·.putLink place place)
  | some target =>
    keep (·.putLink place target)
    if (← kind? name true) == some .dir then
      keep (·.makeDirectories target)

/-- Reads what is at a name itself, except for the content of a file. -/
def loadEntry (name : FileName) : Reading Unit := do
  match ← kind? name false with
  | some .dir =>
    if let some place ← real? name then
      keep (·.makeDirectories place)
  | some .symlink => loadLink name
  | _ => return

/-- Reads the directories below a directory and the files to format. -/
partial def loadBelow (writing : Bool) (wanted : FileName → Bool) (directory : FileName) :
    Reading Unit := do
  match ← ((← IO.currentDir) / text directory).readDir.toBaseIO with
  | .error _ => blame fun f => { f with unlistable := directory :: f.unlistable }
  | .ok entries =>
    for entry in entries do
      let base := FileName.ofString entry.fileName
      let name := FileName.join directory base
      loadEntry name
      checkLookup name
      if (← kind? name false) == some .dir then
        loadBelow writing wanted name
      else if wanted base && (← kind? name true) == some .file then
        loadFile writing name.tidy

/-- Reads what a name stands for. -/
def loadName (writing : Bool) (wanted : FileName → Bool) (name : FileName) : Reading Unit := do
  for beginning in FileSystem.beginnings name do
    loadEntry beginning
  checkLookup name
  match ← kind? name true with
  | some .dir => loadBelow writing wanted name.tidy
  | some _ => loadFile writing name
  | none => return

/-- Reads what a run with these settings can ask for. -/
def load (settings : CommandLine.Settings) : Reading Unit := do
  let wanted (name : FileName) := !name.isHidden &&
    settings.suffix.all fun suffix => name.endsIn (FileName.ofString suffix)
  for path in settings.paths do
    loadName settings.options.write wanted (FileName.ofString path)

/-- What is read of the disk before anything is asked for. -/
def start : IO Snapshot := do
  let workDir ← IO.FS.realPath (← IO.currentDir)
  let components := FileName.components (FileName.ofString workDir.toString)
  return { files := FileSystem.empty components }

/-- Writes the files that a run has changed. -/
def save (before after : FileSystem) : IO Unit := do
  for (place, entry) in after.entries do
    if let .file content := entry then
      if before.get? place != some entry then
        IO.FS.writeBinFile (text (slash :: List.intercalate [slash] place)) (array content)

/-- What stands on a stream. -/
def readInput (stream : IO.FS.Stream) : IO Input := do
  match ← stream.readBinToEnd.toBaseIO with
  | .ok content => return .bytes content.toList
  | .error _ => return .broken

end ConfIndent.Disk

open ConfIndent

/-- The exit code of a program that was stopped. -/
def stopped : UInt32 := 1

/-- The program. -/
def main (arguments : List String) : IO UInt32 := do
  let before ← Disk.start
  let settings := (CommandLine.parse arguments).toOption
  let (_, snapshot) ← (settings.forM Disk.load).run before
  let reads := settings.any fun s => s.paths.isEmpty
  let input ← if reads then Disk.readInput (← IO.getStdin) else pure (.bytes [])
  let console := CommandLine.execute snapshot.faults snapshot.files arguments input
  Disk.save snapshot.files console.files
  let output ← IO.getStdout
  output.write (Disk.array console.output)
  output.flush
  IO.eprint console.messages
  match console.status with
  | .ok code => return code.toUInt32
  | .error crash =>
    IO.eprintln crash.message
    return stopped
