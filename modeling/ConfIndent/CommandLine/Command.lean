import ConfIndent.Batch.Run
import ConfIndent.CommandLine.Settings

/-!
# The Command

The program as it is called: a command line and a standard input, and what comes
out of it: files, printed bytes, messages and an exit code.

Messages are the log of the run, without the lines that are only wanted when
looking for a mistake, and then the errors of its summary. A crash keeps all that
was printed and logged before, but there is no summary to report then.

## Main definitions

* `usage`, `help`: The text shown for a wrong command line, and the help.
* `Console`: What comes out of the program.
* `execute`: Runs the program.
-/

namespace ConfIndent.CommandLine

/-- How the program is called. -/
def usage : String :=
  "usage: hoconfmt [-h] [-l] [-w] [-d] [-e] [-v] [--suffix SUFFIX] [path ...]\n"

/-- The help. -/
def help : String :=
  usage ++ String.join [
    "\n",
    "Normalize the leading indentation of HOCON .conf files.\n",
    "\n",
    "positional arguments:\n",
    "  path             files or directories; standard input if none\n",
    "\n",
    "options:\n",
    "  -h, --help       show this help message and exit\n",
    "  -l               list files whose formatting differs from hoconfmt's\n",
    "  -w               write result to (source) file instead of stdout\n",
    "  -d               display diffs instead of writing files\n",
    "  -e               report all errors (not just the first 10)\n",
    "  -v, --verbose    enable debug logging\n",
    "  --suffix SUFFIX  file suffix to format when walking directories (default:\n",
    "                   .conf)\n"]

namespace Refusal

/-- The exit code of a command line that leads to no run. -/
def exitCode : Refusal → Nat
  | help => Summary.exitOk
  | usage _ => Summary.exitError

/-- What is printed for it. -/
def output : Refusal → String
  | help => CommandLine.help
  | usage _ => ""

/-- The messages for it. -/
def messages : Refusal → String
  | help => ""
  | usage e => CommandLine.usage ++ "hoconfmt: error: " ++ e.message ++ "\n"

end Refusal

/-- What comes out of the program. -/
structure Console where
  /-- The files afterwards. -/
  files : FileSystem
  /-- The bytes printed. -/
  output : Bytes
  /-- The messages. -/
  messages : String
  /-- The exit code, or what stopped the program. -/
  status : Except Crash Nat

/-- A line of the log as a message. -/
def message (line : LogLine) : String :=
  "hoconfmt: " ++ line.text ++ "\n"

/-- The messages of a log. -/
def messages (verbose : Bool) (log : List LogLine) : String :=
  String.join ((log.filter fun line => verbose || line.level != .debug).map message)

/-- Runs a batch as the settings say. -/
def Settings.execute (s : Settings) (faults : Faults) (files : FileSystem) (input : Input) :
    Console :=
  let names := s.paths.map FileName.ofString
  let suffix := s.suffix.map FileName.ofString
  match run faults s.options suffix names input { files := files } with
  | .ok summary w =>
    { files := w.files
      output := w.output
      messages := messages s.verbose (w.log ++ summary.report s.options.allErrors)
      status := .ok summary.exitCode }
  | .error crash w =>
    { files := w.files
      output := w.output
      messages := messages s.verbose w.log
      status := .error crash }

/-- Runs the program. -/
def execute (faults : Faults) (files : FileSystem) (arguments : List String) (input : Input) :
    Console :=
  match parse arguments with
  | .error refusal =>
    { files := files
      output := if faults.outputFull then [] else Bytes.ofAscii refusal.output
      messages := refusal.messages
      status := .ok refusal.exitCode }
  | .ok settings => settings.execute faults files input

end ConfIndent.CommandLine
