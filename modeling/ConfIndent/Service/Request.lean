import ConfIndent.Options
import ConfIndent.Report

/-!
# Requests and Replies

What is asked of the service and what it answers. A request to format hands in a form with a
file, and says in its query whether the change is to be shown.

## Main definitions

* `Part`: A field of a form.
* `Request`: A request.
* `Problem`: What is wrong with a request.
* `Reply`: The answer to a request.
-/

namespace ConfIndent.Service

/-- A field of a form. -/
structure Part where
  /-- The name of the field. -/
  name : String
  /-- The name of the file, if the field is an upload. -/
  fileName : Option String
  /-- What the field holds. -/
  content : Bytes
  deriving DecidableEq, Repr

/-- A request. -/
structure Request where
  /-- What is to be done. -/
  method : String
  /-- The address without the query. -/
  path : String
  /-- The query. -/
  query : Bytes
  /-- The fields of the form; a request without a form has none. -/
  parts : List Part
  deriving DecidableEq, Repr

/-- What is wrong with a request. -/
inductive Problem where
  /-- The switch in the query has no meaning. -/
  | meaningless (value : String)
  /-- There is no file. -/
  | missing
  /-- There is a text in place of a file. -/
  | notUpload (content : String)
  deriving DecidableEq, Repr

namespace Problem

/-- The word for a problem. -/
def kind : Problem → String
  | meaningless _ => SwitchError.meaningless.kind
  | missing => "missing"
  | notUpload _ => "value_error"

/-- Where the problem is. -/
def place : Problem → List String
  | meaningless _ => ["query", "diff"]
  | missing => ["body", "file"]
  | notUpload _ => ["body", "file"]

/-- The text of a problem. -/
def message : Problem → String
  | meaningless _ => SwitchError.meaningless.message
  | missing => "Field required"
  | notUpload _ => "Value error, Expected UploadFile, received: <class 'str'>"

/-- The value that is wrong, if there is one. -/
def value? : Problem → Option String
  | meaningless value => some value
  | missing => none
  | notUpload content => some content

end Problem

/-- The answer to a request. -/
inductive Reply where
  /-- The service is there. -/
  | healthy
  /-- There is nothing at this address. -/
  | unknownPath
  /-- This cannot be done at this address. -/
  | wrongMethod
  /-- The form could not be read, for the reason given. -/
  | unread (reason : String)
  /-- The request is wrong. -/
  | invalid (problems : List Problem)
  /-- The file is none to be formatted. -/
  | refused
  /-- The file was formatted. -/
  | formatted (report : Report)
  deriving DecidableEq

namespace Reply

/-- The status of an answer. -/
def status : Reply → Nat
  | healthy => 200
  | unknownPath => 404
  | wrongMethod => 405
  | unread _ => 400
  | invalid _ => 422
  | refused => 422
  | formatted _ => 200

/-- The text of an answer that is one. -/
def text? : Reply → Option String
  | unknownPath => some "Not Found"
  | wrongMethod => some "Method Not Allowed"
  | unread reason => some reason
  | refused => some "Only .conf files are supported"
  | _ => none

end Reply

end ConfIndent.Service
