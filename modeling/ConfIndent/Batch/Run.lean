import ConfIndent.Batch.Summary
import ConfIndent.Batch.Walk

/-!
# Running a Batch

A batch takes a list of names. A name that leads to a directory stands for the
files below it; any other stands for itself, as it was written. Without names a
single document is read from the standard input.

Whatever goes wrong with one document becomes its outcome and the batch goes on.
A file that cannot be opened is skipped with a warning. Only what was not foreseen
stops the batch, and then there is no summary; what was printed, written and
logged before stays.

## Main definitions

* `recorded`: What is recorded of a document that was processed.
* `processOne`: Processes a document and records what came of it.
* `runName`: Handles one name.
* `run`: Runs a batch.
-/

namespace ConfIndent

open Bytes

/-- The name by which the standard input is listed. -/
def standardInput : FileName :=
  ofAscii "<standard input>"

/-- The error of a batch that would write the standard input back. -/
def writeToInputMessage : String :=
  "cannot use -w with standard input"

/-- What is recorded of a document that was processed. -/
def recorded (name : FileName) :
    EStateM.Result FileError World Bool → EStateM.Result Crash World Outcome
  | .ok changed w => .ok { path := name, changed := changed } w
  | .error .nullInName w => .error .nullInName w
  | .error (.skipped name' reason) w =>
    let warning : LogLine := ⟨.warning, "skipping " ++ (FileError.skipped name' reason).message⟩
    .ok { path := name, skipped := true } { w with log := w.log ++ [warning] }
  | .error e w => .ok { path := name, error := some e.message } w

/-- Processes a document and records what came of it. -/
def processOne (faults : Faults) (options : Options) (name : FileName) (input : Option Input) :
    Action Crash Outcome :=
  fun w => recorded name (processFile faults options name input w)

/-- The outcome of a directory that cannot be listed. -/
def unlistable (reason : SystemError) : Outcome where
  path := reason.name.getD []
  error := some reason.message

/-- Handles one name: the files below it if it leads to a directory, and otherwise
    the file of that name. -/
def runName (faults : Faults) (options : Options) (suffix : Suffix) (name : FileName) :
    Action Crash (List Outcome) := do
  if ← Action.isDirectory faults name.tidy then
    walk faults suffix (fun path => processOne faults options path none) unlistable name
  else
    return [← processOne faults options name none]

/-- Runs a batch without names: processes the standard input. It cannot be written
    back. -/
def runInput (faults : Faults) (options : Options) (input : Input) :
    Action Crash (List Outcome) := do
  if options.write then
    return [{ path := standardInput, error := some writeToInputMessage }]
  else
    return [← processOne faults options standardInput (some input)]

/-- Runs a batch. -/
def run (faults : Faults) (options : Options) (suffix : Suffix) (names : List FileName)
    (input : Input) : Action Crash Summary := do
  match names with
  | [] => return ⟨← runInput faults options input⟩
  | names => return ⟨(← names.mapM (runName faults options suffix)).flatten⟩

end ConfIndent
