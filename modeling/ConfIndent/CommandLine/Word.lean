import ConfIndent.Text.Digit
import ConfIndent.Text.Quoted

/-!
# Words of a Command Line

Each word of a command line is an option, an operand or the separator `--`, and
which it is can be told from the word alone. An option is spelled exactly, or is a
long option cut short in a way that leaves only one possible, or has a value
attached behind an equals sign, or is a short option with more letters behind it.
A word that starts with a hyphen and is none of these is still an operand if it
looks like a negative number or holds a space; otherwise it is an option nobody
knows. After the separator every word is an operand.

## Main definitions

* `Flag`, `Opt`: The options.
* `Opt.spellings`: How options are spelled.
* `Word`: What a word is.
* `UsageError`: What is wrong with a command line.
* `Word.ofString`: What a word is before the separator.
* `Word.ofStrings`: What each word of a command line is.
-/

namespace ConfIndent.CommandLine

/-- An option without a value. -/
inductive Flag where
  /-- Asks for help. -/
  | help
  /-- Lists changed files. -/
  | list
  /-- Writes changed files back. -/
  | write
  /-- Shows changes. -/
  | diff
  /-- Reports all errors. -/
  | allErrors
  /-- Logs more. -/
  | verbose
  deriving DecidableEq, Repr

/-- An option. -/
inductive Opt where
  /-- An option without a value. -/
  | flag (f : Flag)
  /-- Sets the ending of the names of files to format. -/
  | suffix
  deriving DecidableEq, Repr

namespace Opt

/-- How options are spelled. -/
def spellings : List (String × Opt) :=
  [("-h", .flag .help), ("--help", .flag .help), ("-l", .flag .list), ("-w", .flag .write),
    ("-d", .flag .diff), ("-e", .flag .allErrors), ("-v", .flag .verbose),
    ("--verbose", .flag .verbose), ("--suffix", .suffix)]

/-- The option of a spelling. -/
def ofSpelling? (spelling : String) : Option Opt :=
  spellings.lookup spelling

/-- All spellings of an option, as a message names it. -/
def title (o : Opt) : String :=
  "/".intercalate ((spellings.filter fun s => s.2 = o).map Prod.fst)

end Opt

/-- What a word of a command line is. -/
inductive Word where
  /-- A word that is no option. -/
  | operand (text : String)
  /-- The word after which there are no options. -/
  | separator
  /-- An option. The value is what is attached to it; behind a short option that
      may be further options. -/
  | option (o : Opt) (short : Bool) (attached : Option String)
  /-- An option nobody knows. -/
  | unknown (text : String)
  deriving DecidableEq, Repr

/-- What is wrong with a command line. -/
inductive UsageError where
  /-- A word could be several long options cut short. -/
  | ambiguous (word : String) (candidates : List String)
  /-- A value is attached to an option that takes none. -/
  | surplusValue (o : Opt) (value : String)
  /-- An option has no value and needs one. -/
  | missingValue (o : Opt)
  /-- Words are left over. -/
  | unrecognized (words : List String)
  deriving DecidableEq, Repr

/-- The text of an error. -/
def UsageError.message : UsageError → String
  | ambiguous word candidates =>
    "ambiguous option: " ++ word ++ " could match " ++ ", ".intercalate candidates
  | surplusValue o value =>
    "argument " ++ o.title ++ ": ignored explicit argument " ++
      String.ofList (Quoted.text value.toList)
  | missingValue o => "argument " ++ o.title ++ ": expected one argument"
  | unrecognized words => "unrecognized arguments: " ++ " ".intercalate words

/-- A word before its first equals sign, and what is behind it. -/
def splitValue (word : List Char) : String × Option String :=
  match word.dropWhile (· != '=') with
  | [] => (String.ofList word, none)
  | _ :: value => (String.ofList (word.takeWhile (· != '=')), some (String.ofList value))

/-- A spelling is short if it has a single hyphen. -/
def isShort (spelling : String) : Bool :=
  spelling.toList[1]? != some '-'

/-- A word that looks like a negative number: a hyphen and digits, which may have a
    decimal point before or among them. A line feed may follow. -/
def looksNegative (word : List Char) : Bool :=
  match word with
  | '-' :: number =>
    let body := if number.getLast? = some '\n' then number.dropLast else number
    match body.dropWhile isDigit with
    | [] => body != []
    | '.' :: places => places != [] && places.all isDigit
    | _ => false
  | _ => false

/-- The long options that start as a word does. -/
def longCandidates (word : List Char) : List (String × Opt) :=
  Opt.spellings.filter fun s => (splitValue word).1.toList.isPrefixOf s.1.toList

/-- A short option with more letters behind it. -/
def shortWithMore? (word : List Char) : Option Word :=
  (Opt.ofSpelling? (String.ofList (word.take 2))).map fun o =>
    .option o true (some (String.ofList (word.drop 2)))

/-- What a word is that starts with a hyphen and is no option. -/
def Word.ofOther (word : String) : Word :=
  if looksNegative word.toList || word.toList.contains ' ' then .operand word else .unknown word

/-- What a word is that starts with a hyphen and does not spell an option exactly,
    alone or before an equals sign. -/
def Word.ofInexact (word : String) : Except UsageError Word :=
  if "--".toList.isPrefixOf word.toList then
    match longCandidates word.toList with
    | [] => .ok (.ofOther word)
    | [(_, o)] => .ok (.option o false (splitValue word.toList).2)
    | candidates => .error (.ambiguous word (candidates.map Prod.fst))
  else
    .ok ((shortWithMore? word.toList).getD (.ofOther word))

/-- What a word is before the separator. -/
def Word.ofString (word : String) : Except UsageError Word :=
  if word.toList.head? ≠ some '-' ∨ word = "-" then .ok (.operand word)
  else
    match Opt.ofSpelling? word with
    | some o => .ok (.option o (isShort word) none)
    | none =>
      match splitValue word.toList with
      | (spelling, some value) =>
        match Opt.ofSpelling? spelling with
        | some o => .ok (.option o (isShort spelling) (some value))
        | none => Word.ofInexact word
      | (_, none) => Word.ofInexact word

/-- What each word of a command line is. -/
def Word.ofStrings : List String → Except UsageError (List Word)
  | [] => .ok []
  | word :: rest =>
    if word = "--" then .ok (.separator :: rest.map .operand)
    else do return (← Word.ofString word) :: (← Word.ofStrings rest)

end ConfIndent.CommandLine
