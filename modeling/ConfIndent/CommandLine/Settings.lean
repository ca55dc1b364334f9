import ConfIndent.CommandLine.Word
import ConfIndent.Options

/-!
# Settings

What a command line asks for. Options take effect in the order in which they
stand, so a request for help is answered before a later mistake is noticed.

The names of files form one group: the first run of operands that no option
interrupts. Operands that stand after a later option are left over, as are options
nobody knows, and a command line that leaves anything over is refused; no word is
passed over in silence.

Several flags may stand behind one hyphen. The whole word is read before any of
its flags takes effect.

## Main definitions

* `Settings`: What a command line asks for.
* `Refusal`: Why a command line leads to no run.
* `Settings.ofWords`: The settings that words ask for.
* `parse`: The settings that a command line asks for.
-/

namespace ConfIndent.CommandLine

/-- What a command line asks for. -/
structure Settings where
  /-- What is done with each document. -/
  options : Options := {}
  /-- The log shows lines that help to find mistakes. -/
  verbose : Bool := false
  /-- The ending of the names of files to format, if there is any. -/
  suffix : Option String := some ".conf"
  /-- The names to handle. -/
  paths : List String := []
  deriving DecidableEq, Repr

/-- Why a command line leads to no run. -/
inductive Refusal where
  /-- Help was asked for. -/
  | help
  /-- Something is wrong with the command line. -/
  | usage (e : UsageError)
  deriving DecidableEq, Repr

/-- Whether names can still be given. -/
inductive Group where
  /-- No name was given so far. -/
  | awaited
  /-- Names are being given. -/
  | opened
  /-- An option has ended the names. -/
  | closed
  deriving DecidableEq, Repr

/-- A command line read in part. -/
structure Progress where
  /-- What the words read so far ask for. -/
  settings : Settings := {}
  /-- Whether names can still be given. -/
  group : Group := .awaited
  /-- The words left over. -/
  leftOver : List String := []
  deriving DecidableEq, Repr

namespace Progress

/-- Takes an operand: as a name, or as a word left over. -/
def addOperand (p : Progress) (text : String) : Progress :=
  match p.group with
  | .closed => { p with leftOver := p.leftOver ++ [text] }
  | _ =>
    { p with
      group := .opened
      settings := { p.settings with paths := p.settings.paths ++ [text] } }

/-- Takes the separator. It belongs to the names if they can still be given. -/
def addSeparator (p : Progress) : Progress :=
  match p.group with
  | .closed => { p with leftOver := p.leftOver ++ ["--"] }
  | _ => { p with group := .opened }

/-- Ends the names, if there are any. -/
def close (p : Progress) : Progress :=
  match p.group with
  | .opened => { p with group := .closed }
  | _ => p

/-- Takes an option nobody knows. -/
def addUnknown (p : Progress) (text : String) : Progress :=
  { p with leftOver := p.leftOver ++ [text] }

/-- Sets the ending of the names of files to format. -/
def setSuffix (p : Progress) (suffix : Option String) : Progress :=
  { p with settings := { p.settings with suffix := suffix } }

end Progress

/-- The settings after a flag. -/
def Settings.set (s : Settings) : Flag → Except Refusal Settings
  | .help => .error .help
  | .list => .ok { s with options := { s.options with list := true } }
  | .write => .ok { s with options := { s.options with write := true } }
  | .diff => .ok { s with options := { s.options with diff := true } }
  | .allErrors => .ok { s with options := { s.options with allErrors := true } }
  | .verbose => .ok { s with verbose := true }

/-- The flags of one word: a flag and the letters behind it. -/
def cluster (f : Flag) : List Char → Except UsageError (List Flag)
  | [] => .ok [f]
  | c :: rest =>
    match Opt.ofSpelling? (String.ofList ['-', c]) with
    | some (.flag g) => (cluster g rest).map (f :: ·)
    | _ => .error (.surplusValue (.flag f) (String.ofList (c :: rest)))

/-- The flags of a word that spells a flag, with what is attached to it. -/
def flagsOf (f : Flag) (short : Bool) : Option String → Except UsageError (List Flag)
  | none => .ok [f]
  | some value =>
    if short && value != "" then cluster f value.toList
    else .error (.surplusValue (.flag f) value)

/-- The suffix that an attached value sets. A value that looks like the separator
    is taken for one and dropped, which leaves no suffix. -/
def attachedSuffix (value : String) : Option String :=
  if value = "--" then none else some value

namespace Progress

/-- Takes a word that spells a flag. -/
def addFlags (p : Progress) (f : Flag) (short : Bool) (attached : Option String) :
    Except Refusal Progress :=
  match flagsOf f short attached with
  | .error e => .error (.usage e)
  | .ok flags => (flags.foldlM Settings.set p.settings).map fun s => { p with settings := s }

/-- Takes the words that are left. -/
def addWords (p : Progress) : List Word → Except Refusal Progress
  | [] => .ok p
  | .operand text :: rest => (p.addOperand text).addWords rest
  | .separator :: rest => p.addSeparator.addWords rest
  | .unknown text :: rest => (p.close.addUnknown text).addWords rest
  | .option .suffix _ (some value) :: rest =>
    (p.close.setSuffix (attachedSuffix value)).addWords rest
  | .option .suffix _ none :: .operand value :: rest =>
    (p.close.setSuffix (some value)).addWords rest
  | .option .suffix _ none :: _ => .error (.usage (.missingValue .suffix))
  | .option (.flag f) short attached :: rest =>
    match p.close.addFlags f short attached with
    | .error e => .error e
    | .ok p => p.addWords rest

end Progress

/-- The settings that words ask for. -/
def Settings.ofWords (words : List Word) : Except Refusal Settings :=
  match Progress.addWords {} words with
  | .error e => .error e
  | .ok p => if p.leftOver = [] then .ok p.settings else .error (.usage (.unrecognized p.leftOver))

/-- The settings that a command line asks for. -/
def parse (words : List String) : Except Refusal Settings :=
  match Word.ofStrings words with
  | .error e => .error (.usage e)
  | .ok words => Settings.ofWords words

end ConfIndent.CommandLine
