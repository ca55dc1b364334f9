import ConfIndent.FileSystem.Basic

/-!
# Resolving Names

What a name leads to. A name is a route: where it starts, the steps to take, and
whether it ends in a solidus, which says that a directory is meant. Each step
stays, goes up, or enters an entry of the directory reached so far. Entering a
link puts the route it holds before the steps that are left.

How the last step is taken depends on the purpose. To read, a link there is
followed like any other. To create, a name that is not taken yet is fine as long
as its directory is there, and a solidus at the end is refused whatever the name
leads to. To inspect, a link at the end is what was asked for.

Links may lead in circles, so only so many are followed for one name. The limit
is what makes resolving end: between two links every step shortens the route.

## Main definitions

* `Route`: A name taken apart.
* `Purpose`: What a name is resolved for.
* `Spot`: What a name leads to.
* `FileSystem.locate`: Resolves a name.
-/

namespace ConfIndent

open Bytes

/-- One step of a route. -/
inductive Step where
  /-- Stays in the directory. -/
  | stay
  /-- Goes to the directory above. -/
  | up
  /-- Enters an entry of the directory. -/
  | enter (name : Bytes)
  deriving DecidableEq, Repr

/-- A name taken apart. -/
structure Route where
  /-- The route starts at the root. -/
  absolute : Bool
  /-- The steps to take. -/
  steps : List Step
  /-- The name ends in a solidus. -/
  slashed : Bool
  deriving DecidableEq, Repr

/-- The step a component of a name stands for. -/
def Step.ofComponent (component : Bytes) : Step :=
  if component = [dot] then .stay
  else if component = [dot, dot] then .up
  else .enter component

/-- Takes a name apart. -/
def Route.ofName (name : FileName) : Route where
  absolute := name.head? == some slash
  steps := ((pieces slash name).filter (· != [])).map Step.ofComponent
  slashed := name.getLast? == some slash

/-- What a name is resolved for. -/
inductive Purpose where
  /-- To read what is there. -/
  | read
  /-- To write a file, which may have to be created. -/
  | create
  /-- To see what is there without following a link at the end. -/
  | inspect
  deriving DecidableEq, Repr

/-- What a name leads to. -/
inductive Spot where
  /-- An entry. -/
  | taken (l : Location)
  /-- A name in a directory that has no such entry. -/
  | free (directory : Location) (name : Bytes)
  deriving DecidableEq, Repr

namespace FileSystem

/-- The greatest length of a component. -/
def maxComponent : Nat := 255

/-- A name of this length or more is refused. -/
def maxName : Nat := 4096

/-- The number of links that are followed for one name. -/
def maxLinks : Nat := 40

/-- The directory that a route starts in, when it is met in `here`. -/
def startOf (here : Location) (r : Route) : Location :=
  if r.absolute then [] else here

/-- Takes steps from a directory. `follow` goes on with a route after a link. -/
def descend (fs : FileSystem) (purpose : Purpose)
    (follow : Location → List Step → Bool → Except Cause Spot) (slashed : Bool) :
    Location → List Step → Except Cause Spot
  | here, [] => .ok (.taken here)
  | here, .stay :: rest => descend fs purpose follow slashed here rest
  | here, .up :: rest => descend fs purpose follow slashed here.dropLast rest
  | here, .enter name :: rest =>
    let last := rest.isEmpty
    if last && slashed && purpose == .create then .error .isDirectory
    else if maxComponent < name.length then .error .nameTooLong
    else
      match fs.get? (here ++ [name]) with
      | none => if last && !slashed then .ok (.free here name) else .error .missing
      | some .directory => descend fs purpose follow slashed (here ++ [name]) rest
      | some (.file _) =>
        if last && !slashed then .ok (.taken (here ++ [name])) else .error .notDirectory
      | some (.link target) =>
        if last && !slashed && purpose == .inspect then .ok (.taken (here ++ [name]))
        else
          let r := Route.ofName target
          follow (startOf here r) (r.steps ++ rest) (slashed || (last && r.slashed))

/-- Takes steps from a directory and follows no more than the given number of
    links. -/
def resolve (fs : FileSystem) (purpose : Purpose) :
    Nat → Location → List Step → Bool → Except Cause Spot
  | 0, here, steps, slashed =>
    descend fs purpose (fun _ _ _ => .error .linkLoop) slashed here steps
  | links + 1, here, steps, slashed =>
    descend fs purpose (resolve fs purpose links) slashed here steps

/-- What a name leads to. -/
def locate (fs : FileSystem) (purpose : Purpose) (name : FileName) : Except Cause Spot :=
  if name = [] then .error .missing
  else if maxName ≤ name.length then .error .nameTooLong
  else
    let r := Route.ofName name
    resolve fs purpose maxLinks (startOf fs.workDir r) r.steps r.slashed

end FileSystem

end ConfIndent
