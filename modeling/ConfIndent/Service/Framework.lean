import ConfIndent.Service.Query
import ConfIndent.Service.Request

/-!
# Frameworks

The service is built on a framework, which reads a request before the service sees anything of
it. It takes the query and the form apart, and checks the switch in the one and the file in the
other. If something is wrong with them it answers by itself and tells all of it at once. There
are forms that it does not read at all.

None of that is for the service to decide, so a framework is a record of functions that do it,
and only how they are put together is fixed here. The standard one keeps the last of several
values of the same name, in the query as in the form.

## Main definitions

* `Submission`: What is handed in to be formatted.
* `Framework`: What reads requests.
* `Framework.read`: Reads a request to format.
* `Framework.standard`: The framework that is used.
-/

namespace ConfIndent.Service

/-- What is handed in to be formatted. -/
structure Submission where
  /-- The name of the file. -/
  name : String
  /-- What the file holds. -/
  content : Bytes
  /-- The change is to be shown. -/
  withDiff : Bool
  deriving DecidableEq, Repr

/-- What reads requests. -/
structure Framework where
  /-- The names and values of a query, in order. -/
  pairs : Bytes → List (String × String)
  /-- The answer to a form that is not read, if it is not. -/
  refusal? : List Part → Option Reply
  /-- The switch among the names and values of a query. -/
  switch : List (String × String) → Except Problem Bool
  /-- The name and content of the file among the fields of a form. -/
  file : List Part → Except Problem (String × Bytes)

/-- Reads a request to format. There is an answer already if it cannot be read. -/
def Framework.read (framework : Framework) (query : Bytes) (parts : List Part) :
    Except Reply Submission :=
  match framework.refusal? parts with
  | some reply => .error reply
  | none =>
    match framework.switch (framework.pairs query), framework.file parts with
    | .error p, .error q => .error (.invalid [p, q])
    | .error p, .ok _ => .error (.invalid [p])
    | .ok _, .error q => .error (.invalid [q])
    | .ok withDiff, .ok (name, content) => .ok ⟨name, content, withDiff⟩

/-- The greatest number of files in a form, and of other fields. -/
def maxParts : Nat :=
  1000

/-- The greatest number of bytes in a field that is no file. -/
def maxFieldSize : Nat :=
  1024 * 1024

/-- The answer to a form with more files or more other fields than are allowed, or
    with another field that is too large. -/
def refusalBeyond? : Nat → Nat → List Part → Option Reply
  | _, _, [] => none
  | files, fields, part :: rest =>
    match part.fileName, files, fields with
    | some _, 0, _ => some (.unread "Too many files. Maximum number of files is 1000.")
    | some _, files + 1, fields => refusalBeyond? files fields rest
    | none, _, 0 => some (.unread "Too many fields. Maximum number of fields is 1000.")
    | none, files, fields + 1 =>
      if part.content.length ≤ maxFieldSize then refusalBeyond? files fields rest
      else some (.unread "Part exceeded maximum size of 1024KB.")

/-- The switch in a query, by its last value. It is off if it has none. -/
def lastSwitch (pairs : List (String × String)) : Except Problem Bool :=
  match pairs.reverse.find? fun pair => pair.1 = "diff" with
  | none => .ok false
  | some (_, value) =>
    match Switch.ofWord? value with
    | some b => .ok b
    | none => .error (.meaningless value)

/-- The text of a field that is no upload. -/
def fieldText (content : Bytes) : String :=
  String.ofList ((Utf8.decode? content).getD (content.map fun b => Char.ofNat b.toNat))

/-- The name and content of the last file in a form. An empty text counts as none. -/
def lastFile (parts : List Part) : Except Problem (String × Bytes) :=
  match parts.reverse.find? fun part => part.name = "file" with
  | none => .error .missing
  | some part =>
    match part.fileName with
    | some fileName => .ok (fileName, part.content)
    | none =>
      if part.content = [] then .error .missing
      else .error (.notUpload (fieldText part.content))

/-- The framework that is used. -/
def Framework.standard : Framework where
  pairs := Query.pairs
  refusal? := refusalBeyond? maxParts maxParts
  switch := lastSwitch
  file := lastFile

end ConfIndent.Service
