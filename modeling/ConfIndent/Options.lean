/-!
# Options

What is to be done with each formatted document. With none of the first three
options set the document is printed.

Options arrive from outside as values of any kind. A switch is set by a Boolean,
by the numbers zero and one, and by a handful of words in any case of letters. A
whole number or word that is none of these has the right form but no meaning; a
value of another kind has not even the form, and neither has a number that does
not fit in 64 bits. The two are told apart, and all options at fault are reported
at once.

## Main definitions

* `Options`: What is to be done.
* `Switch.ofWord?`: The words that set a switch.
* `Switch.ofValue`: A switch set by a value of any kind.
* `Options.ofValues`: Options set by values of any kind.
-/

namespace ConfIndent

/-- What is to be done with each formatted document. -/
structure Options where
  /-- The names of changed files are listed. -/
  list : Bool := false
  /-- Changed files are written back. -/
  write : Bool := false
  /-- Changes are shown as patches. -/
  diff : Bool := false
  /-- All errors are reported, however many there are. -/
  allErrors : Bool := false
  deriving DecidableEq, Repr

/-- Formatted documents are printed, since nothing else is done with them. -/
def Options.printsResult (o : Options) : Bool :=
  !(o.list || o.write || o.diff)

/-- A value from outside. -/
inductive Value where
  /-- A Boolean. -/
  | boolean (b : Bool)
  /-- The number `digits / 10 ^ places`. -/
  | number (digits : Int) (places : Nat)
  /-- A text. -/
  | text (s : String)
  /-- Anything else. -/
  | other
  deriving DecidableEq, Repr

/-- Why a value does not set a switch. -/
inductive SwitchError where
  /-- The value might set a switch but this one has no meaning. -/
  | meaningless
  /-- Values of this kind never set a switch. -/
  | wrongKind
  deriving DecidableEq, Repr

namespace SwitchError

/-- The word for an error. -/
def kind : SwitchError → String
  | meaningless => "bool_parsing"
  | wrongKind => "bool_type"

/-- The text of an error. -/
def message : SwitchError → String
  | meaningless => "Input should be a valid boolean, unable to interpret input"
  | wrongKind => "Input should be a valid boolean"

end SwitchError

namespace Switch

/-- The words that set a switch. -/
def words : List (String × Bool) :=
  [("0", false), ("off", false), ("f", false), ("false", false), ("n", false), ("no", false),
    ("1", true), ("on", true), ("t", true), ("true", true), ("y", true), ("yes", true)]

/-- The setting a word stands for, in any case of letters. Blanks around the
    word count as part of it. -/
def ofWord? (word : String) : Option Bool :=
  words.lookup (String.ofList (word.toList.map Char.toLower))

/-- The number is one of those that 64 bits can hold, where half of them are
    negative. -/
def fits (n : Int) : Bool :=
  -Int.pow 2 63 ≤ n && n < Int.pow 2 63

/-- The setting a value stands for. -/
def ofValue : Value → Except SwitchError Bool
  | .boolean b => .ok b
  | .text s =>
    match ofWord? s with
    | some b => .ok b
    | none => .error .meaningless
  | .number digits places =>
    if digits = 0 then .ok false
    else if digits = Int.pow 10 places then .ok true
    else if digits % Int.pow 10 places = 0 && fits (digits / Int.pow 10 places) then
      .error .meaningless
    else .error .wrongKind
  | .other => .error .wrongKind

/-- The setting that an optional value stands for; a switch that is not set is
    off. -/
def ofOptional : Option Value → Except SwitchError Bool
  | none => .ok false
  | some v => ofValue v

end Switch

/-- Values for the options, as far as they are given. -/
structure OptionValues where
  list : Option Value := none
  write : Option Value := none
  diff : Option Value := none
  allErrors : Option Value := none
  deriving DecidableEq, Repr

namespace Options

/-- The options at fault, by name and in order. -/
def faults (v : OptionValues) : List (String × SwitchError) :=
  [("list", v.list), ("write", v.write), ("diff", v.diff), ("all_errors", v.allErrors)].filterMap
    fun (name, value) =>
      match Switch.ofOptional value with
      | .ok _ => none
      | .error e => some (name, e)

/-- The options that values stand for, or all that is wrong with the values. -/
def ofValues (v : OptionValues) : Except (List (String × SwitchError)) Options :=
  match Switch.ofOptional v.list, Switch.ofOptional v.write, Switch.ofOptional v.diff,
    Switch.ofOptional v.allErrors with
  | .ok list, .ok write, .ok diff, .ok allErrors => .ok ⟨list, write, diff, allErrors⟩
  | _, _, _, _ => .error (faults v)

end Options

end ConfIndent
