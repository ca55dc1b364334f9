import ConfIndent.FileSystem.Calls

/-!
# What a Batch Acts On

A batch reads and writes files, prints to a stream and logs. `World` holds these
three, and an action takes it from one state to the next. An action that fails
stops where it is; what it did before stays done.

Calls may also fail for reasons that lie outside the file system: permissions, a
damaged device, a full one. `Faults` lists which calls do, by the name they are
made on. Such a call fails whatever the name leads to, and even if it leads
nowhere. The formatter and the comparison of texts can be made to fail too, so
that what a batch does about that can be told.

Asking whether a name leads to a directory or a file is not a call that fails
easily. A name that leads nowhere, through a file or in circles leads to neither.
The question is left open by a name that is too long to be looked up or that may
not be, for a directory on the way cannot be searched or the device is damaged.

A file is written in two steps. Opening it empties it, and then it is filled. The
second step can fail as well, for want of room, and leaves a beginning of what was
to be written.

## Main definitions

* `Level`, `LogLine`: A line of the log.
* `World`: Files, output and log.
* `Faults`: The calls that fail.
* `Faults.stat`, `Faults.probe`: What a name leads to, if it can be looked up.
* `Faults.fitting`: What there is room for in a file.
* `Action`: A computation that acts on the world.
-/

namespace ConfIndent

/-- How serious a line of the log is. -/
inductive Level where
  /-- Of use when looking for a mistake. -/
  | debug
  /-- A file was left out. -/
  | warning
  /-- A file could not be handled. -/
  | error
  deriving DecidableEq, Repr

/-- The word for a level. -/
def Level.word : Level → String
  | debug => "DEBUG"
  | warning => "WARNING"
  | error => "ERROR"

/-- A line of the log. -/
structure LogLine where
  level : Level
  text : String
  deriving DecidableEq, Repr

/-- What a batch acts on. -/
structure World where
  /-- The files. -/
  files : FileSystem
  /-- What was printed. -/
  output : Bytes := []
  /-- What was logged. -/
  log : List LogLine := []
  deriving DecidableEq

/-- The calls that fail for reasons outside the file system. -/
structure Faults where
  /-- Names that cannot be looked up, and why. -/
  untraceable : List (FileName × Cause) := []
  /-- Files that may not be opened for reading. -/
  unopenable : List FileName := []
  /-- Names that can always be opened but never read. -/
  unreadable : List FileName := []
  /-- Files that may not be opened for writing. -/
  unwritable : List FileName := []
  /-- The number of bytes that there is room for in a file that was opened for
      writing, if there is a limit. It may depend on all files, as it does on a
      device that they share. -/
  room : FileSystem → FileName → Option Nat := fun _ _ => none
  /-- Directories that may not be listed. -/
  unlistable : List FileName := []
  /-- Nothing can be printed. -/
  outputFull : Bool := false
  /-- The formatter fails, for the reason given. -/
  formatter : Option String := none
  /-- The comparison of texts fails, for the reason given. -/
  comparison : Option String := none

namespace Faults

/-- What a name leads to, through links. -/
def stat (faults : Faults) (files : FileSystem) (name : FileName) : Except Cause Entry :=
  match faults.untraceable.lookup name with
  | some c => .error c
  | none => files.stat name

/-- What a name leads to, where nothing is an answer. -/
def probe (faults : Faults) (files : FileSystem) (name : FileName) :
    Except Cause (Option Entry) :=
  match faults.stat files name with
  | .ok e => .ok (some e)
  | .error c => if c.leadsNowhere then .ok none else .error c

/-- The beginning of the bytes that there is room for in a file. -/
def fitting (faults : Faults) (files : FileSystem) (name : FileName) (bytes : Bytes) : Bytes :=
  match faults.room files name with
  | some n => bytes.take n
  | none => bytes

end Faults

/-- A computation that acts on the world and may fail. -/
abbrev Action (ε α : Type) := EStateM ε World α

namespace Action

variable {ε : Type}

/-- Adds a line to the log. -/
def log (level : Level) (text : String) : Action ε Unit :=
  modify fun w => { w with log := w.log ++ [⟨level, text⟩] }

/-- Prints bytes. -/
def print (bytes : Bytes) : Action ε Unit :=
  modify fun w => { w with output := w.output ++ bytes }

end Action

end ConfIndent
