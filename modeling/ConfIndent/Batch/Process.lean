import ConfIndent.Batch.World
import ConfIndent.Diff.Patch
import ConfIndent.Indent
import ConfIndent.Options

/-!
# Processing a File

A document is read, formatted, and acted on as the options say. If formatting
changed it, its name is listed, the file is written back and the change is shown,
in this order and each only if asked for. If none of these is asked for, the
formatted document is printed, changed or not.

The steps are not undone when a later one fails. A file that was written back
stays so even if the change cannot be shown afterwards, and one that was emptied
stays so even if it cannot be filled.

A file that cannot be opened is skipped, which is not an error of the batch. A
file that can be opened but not read is one.

## Main definitions

* `Input`: A stream to read a document from.
* `FileError`: Why a document could not be processed.
* `Calls`: The calls by which a document is processed.
* `Calls.processFile`: Processes a document.
* `processFile`: Processes a document where some calls fail.
-/

namespace ConfIndent

open Bytes

/-- A stream to read a document from. -/
inductive Input where
  /-- A stream that holds these bytes. -/
  | bytes (content : Bytes)
  /-- A stream that cannot be read. -/
  | broken
  deriving DecidableEq, Repr

/-- Why a document could not be processed. -/
inductive FileError where
  /-- The file cannot be opened. -/
  | skipped (name : FileName) (reason : SystemError)
  /-- The document cannot be read. -/
  | unreadable (name : FileName) (reason : SystemError)
  /-- The file cannot be written back. -/
  | unwritable (name : FileName) (reason : SystemError)
  /-- The change cannot be worked out. -/
  | incomparable (reason : String)
  /-- Nothing can be printed. -/
  | unprintable (reason : SystemError)
  /-- The name holds a null byte and is no name for any call. -/
  | nullInName
  deriving DecidableEq, Repr

/-- The text for a name that holds a null byte. -/
def nullInNameMessage : String :=
  "embedded null byte"

/-- The text of an error. -/
def FileError.message : FileError → String
  | skipped name reason => name.display ++ ": " ++ reason.message
  | unreadable name reason => name.display ++ ": " ++ reason.message
  | unwritable name reason => name.display ++ ": " ++ reason.message
  | incomparable reason => "computing diff: " ++ reason
  | unprintable reason => reason.message
  | nullInName => nullInNameMessage

namespace Action

/-- The document of a stream, or of the named file if there is no stream. -/
def readSource (faults : Faults) (name : FileName) : Option Input → Action FileError Bytes
  | some (.bytes content) => return content
  | some .broken => throw (.unreadable name ⟨.inputOutput, none⟩)
  | none => do
    if name ∈ faults.unopenable then throw (.skipped name ⟨.denied, some name⟩)
    if name ∈ faults.unreadable then throw (.unreadable name ⟨.inputOutput, none⟩)
    if 0 ∈ name then throw .nullInName
    match (← get).files.read name with
    | .error c => throw (.skipped name ⟨c, some name⟩)
    | .ok content => return content

/-- Writes the named file, as far as there is room. -/
def writeBack (faults : Faults) (name : FileName) (content : Bytes) : Action FileError Unit := do
  if name ∈ faults.unwritable then throw (.unwritable name ⟨.denied, some name⟩)
  if 0 ∈ name then throw .nullInName
  let written := faults.fitting (← get).files name content
  match (← get).files.write name written with
  | .error c => throw (.unwritable name ⟨c, some name⟩)
  | .ok files =>
    modify fun w => { w with files := files }
    if written ≠ content then throw (.unwritable name ⟨.noSpace, none⟩)

/-- Prints bytes, if anything can be printed. -/
def tryPrint (faults : Faults) (bytes : Bytes) : Action FileError Unit :=
  if faults.outputFull then throw (.unprintable ⟨.noSpace, none⟩) else print bytes

end Action

/-- The calls by which a document is processed. Each may fail on its own account. -/
structure Calls where
  /-- Gives the document of a stream, or of the named file if there is no stream. -/
  readSource : FileName → Option Input → Action FileError Bytes
  /-- Writes the named file. -/
  writeBack : FileName → Bytes → Action FileError Unit
  /-- Prints bytes. -/
  print : Bytes → Action FileError Unit
  /-- The formatter fails, for the reason given. -/
  formatter : Option String := none
  /-- The comparison of texts fails, for the reason given. -/
  comparison : Option String := none

/-- The calls where some of them fail. -/
def Faults.calls (faults : Faults) : Calls where
  readSource := Action.readSource faults
  writeBack := Action.writeBack faults
  print := Action.tryPrint faults
  formatter := faults.formatter
  comparison := faults.comparison

/-- The line that announces the patch of a file. -/
def patchHeader (name : FileName) : Bytes :=
  ofAscii "diff " ++ name ++ ofAscii " hoconfmt/" ++ name ++ [lf]

namespace Calls

/-- Shows a change as a patch. -/
def showChange (calls : Calls) (name : FileName) (source formatted : Bytes) :
    Action FileError Unit :=
  match calls.comparison with
  | some reason => throw (.incomparable reason)
  | none => do
    calls.print (patchHeader name)
    calls.print (Diff.unified source formatted name)

/-- Acts on a document that formatting changed. -/
def applyChange (calls : Calls) (options : Options) (name : FileName)
    (source formatted : Bytes) : Action FileError Unit := do
  if options.list then
    calls.print (name ++ [lf])
  if options.write then
    calls.writeBack name formatted
  if options.diff then
    calls.showChange name source formatted

/-- Processes a document: the stream given, or else the named file. Tells whether
    formatting changed it. -/
def processFile (calls : Calls) (options : Options) (name : FileName)
    (input : Option Input) : Action FileError Bool := do
  let source ← calls.readSource name input
  match calls.formatter with
  | some reason =>
    Action.log .debug (name.display ++ ": formatting failed, leaving unchanged: " ++ reason)
    return false
  | none =>
    let formatted := retab source
    if source ≠ formatted then
      calls.applyChange options name source formatted
    if options.printsResult then
      calls.print formatted
    return source ≠ formatted

end Calls

/-- Processes a document where some calls fail. -/
def processFile (faults : Faults) (options : Options) (name : FileName)
    (input : Option Input) : Action FileError Bool :=
  faults.calls.processFile options name input

end ConfIndent
