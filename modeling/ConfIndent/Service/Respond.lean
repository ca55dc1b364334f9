import ConfIndent.FileName
import ConfIndent.Service.Framework

/-!
# The Service

The formatter as a service. A request to format is checked in two steps. First the framework
reads it, and answers by itself if it cannot. Only then is the name of the file looked at, which
must tell a file to be formatted.

The framework and the way charsets are detected are not part of the service. It does what it does
with whatever they say.

## Main definitions

* `accepts`: The names of files to format.
* `format`: Formats what was handed in.
* `respond`: Answers a request.
-/

namespace ConfIndent.Service

/-- The ending of the names of files to format. -/
def ending : String :=
  ".conf"

/-- The name tells a file to be formatted, in any case of letters. Letters outside
    ASCII have no other case among those of the ending. -/
def accepts (name : String) : Bool :=
  name != "" && ending.toList.isSuffixOf (name.toList.map Char.toLower)

/-- Formats what was handed in, if it is a file to be formatted. -/
def format (detector : Detector) (s : Submission) : Reply :=
  if accepts s.name then
    .formatted (Report.ofDocument s.content (FileName.ofString s.name) s.withDiff detector)
  else .refused

/-- Answers a request to format. -/
def answer (framework : Framework) (detector : Detector) (query : Bytes) (parts : List Part) :
    Reply :=
  match framework.read query parts with
  | .ok submission => format detector submission
  | .error reply => reply

/-- The path is the address, or the address and a line feed. -/
def leadsTo (address path : String) : Bool :=
  path = address || path = address ++ "\n"

/-- Answers a request. -/
def respond (r : Request) (framework : Framework := .standard) (detector : Detector := detect) :
    Reply :=
  if leadsTo "/health" r.path then if r.method = "GET" then .healthy else .wrongMethod
  else if leadsTo "/format" r.path then
    if r.method = "POST" then answer framework detector r.query r.parts else .wrongMethod
  else .unknownPath

end ConfIndent.Service
