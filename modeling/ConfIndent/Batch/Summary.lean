import ConfIndent.Batch.World

/-!
# Summaries

What came of a batch: an outcome for every document and for every directory that
could not be listed, in the order they were met. From it follow the counts, the
exit code, and the errors that are reported.

A skipped file is no error. Of many errors only the first few are reported,
followed by a line that counts the rest, unless all of them are wanted.

## Main definitions

* `Outcome`: What came of one document.
* `Summary`: What came of a batch.
* `Summary.exitCode`: The exit code.
* `Summary.report`: The errors that are reported.
-/

namespace ConfIndent

/-- What came of one document. -/
structure Outcome where
  /-- The name of the document as it was given or found. -/
  path : FileName
  /-- Formatting changed it. -/
  changed : Bool := false
  /-- It was left out because it could not be opened. -/
  skipped : Bool := false
  /-- Why it could not be handled. -/
  error : Option String := none
  deriving DecidableEq, Repr

/-- What came of a batch. -/
structure Summary where
  /-- The outcomes in order. -/
  outcomes : List Outcome
  deriving DecidableEq, Repr

namespace Summary

/-- The texts of all errors. -/
def errors (s : Summary) : List String :=
  s.outcomes.filterMap Outcome.error

/-- The number of errors. -/
def errorCount (s : Summary) : Nat :=
  s.errors.length

/-- The number of changed documents. -/
def changedCount (s : Summary) : Nat :=
  s.outcomes.countP Outcome.changed

/-- The exit code of a run without errors. -/
def exitOk : Nat := 0

/-- The exit code of a run with errors. -/
def exitError : Nat := 2

/-- The exit code. -/
def exitCode (s : Summary) : Nat :=
  if s.errorCount = 0 then exitOk else exitError

/-- The number of errors that are reported unless all are wanted. -/
def maxReported : Nat := 10

/-- The line that counts the errors left out. -/
def moreErrors (n : Nat) : String :=
  s!"({n} more errors)"

/-- The errors that are reported. -/
def report (s : Summary) (all : Bool) : List LogLine :=
  let shown := if all then s.errors else s.errors.take maxReported
  let hidden := s.errors.length - shown.length
  let texts := if hidden = 0 then shown else shown ++ [moreErrors hidden]
  texts.map fun text => ⟨.error, text⟩

end Summary

end ConfIndent
