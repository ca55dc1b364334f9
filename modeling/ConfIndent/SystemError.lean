import ConfIndent.FileName

/-!
# System Errors

Why the operating system refused a call. Each cause has a number and a text, and
a call on a name says which name it was about.

## Main definitions

* `Cause`: Why a call failed.
* `SystemError`: A failed call.
* `SystemError.message`: The text of a failed call.
-/

namespace ConfIndent

/-- Why a call failed. -/
inductive Cause where
  /-- The name leads nowhere. -/
  | missing
  /-- The device failed. -/
  | inputOutput
  /-- The call is not allowed. -/
  | denied
  /-- A directory is needed and the name leads to something else. -/
  | notDirectory
  /-- The name leads to a directory and something else is needed. -/
  | isDirectory
  /-- The device is full. -/
  | noSpace
  /-- The name or one of its components is too long. -/
  | nameTooLong
  /-- Links lead to links without end. -/
  | linkLoop
  deriving DecidableEq, Repr

namespace Cause

/-- The number of a cause. -/
def number : Cause → Nat
  | missing => 2
  | inputOutput => 5
  | denied => 13
  | notDirectory => 20
  | isDirectory => 21
  | noSpace => 28
  | nameTooLong => 36
  | linkLoop => 40

/-- The text of a cause. -/
def text : Cause → String
  | missing => "No such file or directory"
  | inputOutput => "Input/output error"
  | denied => "Permission denied"
  | notDirectory => "Not a directory"
  | isDirectory => "Is a directory"
  | noSpace => "No space left on device"
  | nameTooLong => "File name too long"
  | linkLoop => "Too many levels of symbolic links"

/-- The name leads nowhere, through a file or in circles, so that there is
    nothing it could be about. -/
def leadsNowhere : Cause → Bool
  | missing => true
  | notDirectory => true
  | linkLoop => true
  | _ => false

end Cause

/-- A failed call. -/
structure SystemError where
  /-- Why it failed. -/
  cause : Cause
  /-- The name it was about, unless it was about a stream. -/
  name : Option FileName := none
  deriving DecidableEq, Repr

/-- The text of a failed call. -/
def SystemError.message (e : SystemError) : String :=
  let text := s!"[Errno {e.cause.number}] {e.cause.text}"
  match e.name with
  | none => text
  | some name => text ++ ": " ++ name.quoted

end ConfIndent
