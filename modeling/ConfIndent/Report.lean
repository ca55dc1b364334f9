import ConfIndent.Diff.Patch
import ConfIndent.Digest.Base64
import ConfIndent.Digest.Sha256
import ConfIndent.Indent
import ConfIndent.Text.Detection

/-!
# Reports

What is told about a document that was handed in to be formatted: the formatted
document and its digest, whether and how its margin changed, the charset it seems
to be in, and on request the change itself.

The change is shown in the charset of the document, since that is what most of
its bytes are in; its own labels and headers come out as they are in every
charset that extends ASCII.

## Main definitions

* `Report`: What is told about a document.
* `Report.ofDocument`: The report on a document.
-/

namespace ConfIndent

/-- What is told about a document. -/
structure Report where
  /-- The digest of the formatted document. -/
  digest : String
  /-- The formatted document in Base64. -/
  content : List Char
  /-- Formatting changed the document. -/
  changed : Bool
  /-- The number of tabs the margin is worth. -/
  tabs : Nat
  /-- The number of bytes before the line of the first code. -/
  leadingBlank : Nat
  /-- The charset the document seems to be in. -/
  charset : Option Charset
  /-- The change as it is shown, if it was asked for. -/
  diff : Option (List Char)
  deriving DecidableEq

/-- The report on a document of the given name, with or without the change. -/
def Report.ofDocument (document name : Bytes) (withDiff : Bool)
    (detector : Detector := detect) : Report :=
  let opening := Opening.ofDocument document
  let formatted := retab document
  let charset := detector document
  { digest := Sha256.hexDigest formatted
    content := Base64.encode formatted
    changed := formatted != document
    tabs := opening.tabs
    leadingBlank := opening.lineStart
    charset := charset
    diff :=
      if withDiff then some (Charset.display charset (Diff.unified document formatted name))
      else none }

end ConfIndent
