/-!
# Files

What a path leads to. The rest of the library sees a file system as a function of paths, `Files`;
`Directory` is one of which the working directory is known. From there a path leads through
directories, step by step: an empty part and a single point stay, two points go up, and nothing is
known above the working directory but that it is there.
-/

namespace Sparring

/-- What a path can lead to. -/
inductive FileNode where
  | directory
  | file (content : List UInt8) (executable : Bool)
deriving DecidableEq, Repr

/-- Why a path leads nowhere. -/
inductive PathFault where
  | notFound
  /-- The path goes on behind a file. -/
  | notADirectory
  /-- The path has a zero character. -/
  | zeroCharacter
deriving DecidableEq, Repr

/-- A file system. -/
abbrev Files := String → Except PathFault FileNode

/-- Whether a path leads to something. -/
def Files.has (files : Files) (path : String) : Bool := (files path).toOption.isSome

/-- The working directory: what lies in it, by the parts of its path. -/
structure Directory where
  nodes : List (List String × FileNode)

namespace Directory

/-- The directory with the given files and directories, by their paths. -/
def ofNodes (nodes : List (String × FileNode)) : Directory :=
  ⟨nodes.map fun (path, node) => (path.splitOn "/", node)⟩

/-- Where a path has led so far: up from the working directory, or down from it. -/
inductive Place where
  | above
  | inside (parts : List String)

/-- The place one step down. -/
def Place.child : Place → String → Option Place
  | above, _ => none
  | inside parts, name => some (inside (parts ++ [name]))

/-- The place one step up. -/
def Place.parent : Place → Place
  | above => above
  | inside [] => above
  | inside parts => inside parts.dropLast

/-- What is at a place. A directory need not be listed to hold what is. -/
def at? (d : Directory) : Place → Option FileNode
  | .above => some .directory
  | .inside [] => some .directory
  | .inside parts =>
    match d.nodes.lookup parts with
    | some node => some node
    | none => if d.nodes.any fun (path, _) => parts.isPrefixOf path then some .directory else none

/-- Follows the parts of a path. -/
def follow (d : Directory) (place : Place) (node : FileNode) :
    List String → Except PathFault FileNode
  | [] => .ok node
  | part :: rest =>
    if node ≠ .directory then .error .notADirectory
    else if part = "" ∨ part = "." then d.follow place node rest
    else if part = ".." then d.follow place.parent .directory rest
    else
      match (place.child part).bind fun p => (d.at? p).map fun n => (p, n) with
      | some (place, node) => d.follow place node rest
      | none => .error .notFound

/-- The file system with the given working directory. -/
def files (d : Directory) : Files := fun path =>
  if path.toList.contains '\x00' then .error .zeroCharacter
  else
    match path.splitOn "/" with
    | [""] => .error .notFound
    | "" :: rest => d.follow .above .directory rest
    | parts => d.follow (.inside []) .directory parts

end Directory

end Sparring
