/-
# A tree of files

A folder holds named files, links and folders. A location is the list of names that leads
from the top to a place in the tree without following a link. A path is followed as the
system does it: component by component, links included, of which at most forty may be
met. The top of a tree is the root of the system: absolute paths start there, nothing lies
above it, and two dots at the top lead to the top itself. It is also where a run starts, and
with it every path that is not absolute.

Key definitions: `Node`, `Node.find?`, `Node.alter`, `Node.follow`, `Node.locate`, `Node.put`,
`Node.remove`.
-/
import Uncomment.Disk.Listing
import Uncomment.Failure
import Uncomment.Path

namespace Uncomment

/-- A file, a link or a folder. -/
inductive Node where
  | file (mode : Nat) (contents : ByteArray)
  | link (target : String)
  | folder (entries : List (String × Node))

/-- The names that lead from the top of a tree to a place in it. -/
abbrev Location := List String

namespace Node

/-! ### Looking at a tree -/

/-- The entry of a given name. -/
def child? (name : String) (entries : List (String × Node)) : Option Node := entries.lookup name

/-- What is at a location. -/
def find? : Node → Location → Option Node
  | node, [] => some node
  | folder entries, name :: names =>
    match child? name entries with
    | none => none
    | some node => node.find? names
  | _, _ :: _ => none

mutual

/-- The shape of a tree. -/
def listing : Node → Listing
  | file _ _ => .file
  | link _ => .link
  | folder entries => .folder (entryListings entries)

/-- The shapes of the entries of a folder. -/
def entryListings : List (String × Node) → List (String × Listing)
  | [] => []
  | (name, node) :: entries => (name, node.listing) :: entryListings entries

end

mutual

/-- Every place in a tree at or below a location, and what is there. -/
def places (here : Location) : Node → List (Location × Node)
  | folder entries => (here, folder entries) :: entryPlaces here entries
  | node => [(here, node)]

/-- Every place in some entries of the folder at a location, and what is there. -/
def entryPlaces (here : Location) : List (String × Node) → List (Location × Node)
  | [] => []
  | (name, node) :: entries => places (here ++ [name]) node ++ entryPlaces here entries

end

/-! ### Changing a tree -/

/-- Some entries with the one of a given name replaced, added or taken away. -/
def setEntry (name : String) (new : Option Node) : List (String × Node) → List (String × Node)
  | [] => (new.map (name, ·)).toList
  | (k, node) :: entries =>
    if k = name then (new.map (name, ·)).toList ++ entries
    else (k, node) :: setEntry name new entries

/-- A tree with what is at a location replaced, added or taken away. Nothing happens if the
location is not in a folder of the tree. -/
def alter (new : Option Node) : Location → Node → Node
  | [], node => new.getD node
  | [name], folder entries => folder (setEntry name new entries)
  | name :: names, folder entries =>
    match child? name entries with
    | none => folder entries
    | some node => folder (setEntry name (some (alter new names node)) entries)
  | _ :: _, node => node

/-! ### Following a path -/

/-- The largest number of links met on the way of a path. -/
def maxLinks : Nat := 40

/-- The largest size of a name in bytes. -/
def maxNameSize : Nat := 255

/-- A path has to be shorter than this number of bytes. -/
def maxPathSize : Nat := 4096

/-- Where a path starts that stands in the folder at `here`. -/
def startOf (here : Location) (path : String) : Location :=
  if path.startsWith "/" then [] else here

/-- The location reached from the folder at `here` by the pieces of a path, when `links` more
links may be met. The name that the path ends with may be free if `fresh`, as it may where a
new file goes; a link at the end then leads to the place of the new file. -/
def follow (top : Node) (fresh : Bool) (links : Nat) (here : Location) (pieces : List String) :
    Except IoError Location :=
  match pieces with
  | [] => .ok here
  | piece :: rest =>
    match top.find? here with
    | some (folder entries) =>
      if piece = "" ∨ piece = "." then follow top fresh links here rest
      else if piece = ".." then follow top fresh links here.dropLast rest
      else if maxNameSize < piece.utf8ByteSize then .error .nameTooLong
      else
        match child? piece entries with
        | none => if fresh && rest.isEmpty then .ok (here ++ [piece]) else .error .noEntry
        | some (link target) =>
          match links with
          | 0 => .error .linkLoop
          | links + 1 =>
            follow top fresh links (startOf here target) (Path.pieces target ++ rest)
        | some _ => follow top fresh links (here ++ [piece]) rest
    | some _ => .error .notDirectory
    | none => .error .noEntry
termination_by (links, pieces.length)

/-- The location that a path leads to from the top of a tree. -/
def locate (top : Node) (path : String) : Except IoError Location :=
  if path.toList.contains '\x00' then .error .nulByte
  else if maxPathSize ≤ path.utf8ByteSize then .error .nameTooLong
  else if path.isEmpty then .error .noEntry
  else top.follow false maxLinks [] (Path.pieces path)

/-- What a path leads to, and where that is. -/
def resolve (top : Node) (path : String) : Except IoError (Location × Node) := do
  let location ← top.locate path
  match top.find? location with
  | some node => .ok (location, node)
  | none => .error .noEntry

/-! ### Building a tree -/

/-- The names in a path. -/
def namesIn (path : String) : Except IoError (List String) :=
  if path.toList.contains '\x00' then .error .nulByte
  else .ok ((Path.pieces path).filter fun piece => piece ≠ "" ∧ piece ≠ ".")

/-- Whether the owner of a file with some access rights may write to it. -/
def isWritable (mode : Nat) : Bool := mode.testBit 7

/-- A tree in which some names lead from the folder at `here` to a folder, and where that
folder is. A free name becomes a new folder; a name that is taken by something else is not
given up. -/
def makeFolders (top : Node) (here : Location) :
    List String → Except IoError (Node × Location)
  | [] => .ok (top, here)
  | name :: names =>
    let new := here ++ [name]
    let taken := name = ".." || (top.find? new).isSome
    match top.follow false maxLinks here [name] with
    | .ok location =>
      match top.find? location with
      | some (folder _) => makeFolders top location names
      | _ => .error (if names.isEmpty then .alreadyExists else .notDirectory)
    | .error .noEntry =>
      if taken then .error .alreadyExists
      else makeFolders (top.alter (some (folder [])) new) new names
    | .error e => .error (if taken && names.isEmpty then .alreadyExists else e)

/-- A tree in which the file that a name in a folder leads to has some contents. The file is
created if there is none. -/
def write (top : Node) (here : Location) (name : String) (mode : Nat) (contents : ByteArray) :
    Except IoError Node := do
  let location ← top.follow true maxLinks here [name]
  match top.find? location with
  | none => .ok (top.alter (some (file mode contents)) location)
  | some (file old _) =>
    if isWritable old then .ok (top.alter (some (file mode contents)) location)
    else .error .denied
  | some _ => .error .isDirectory

/-- A tree with a link under a free name in a folder. -/
def linkTo (top : Node) (here : Location) (name target : String) : Except IoError Node :=
  match top.follow true 0 here [name] with
  | .error .linkLoop => .error .alreadyExists
  | .error e => .error e
  | .ok location =>
    if target.toList.contains '\x00' then .error .nulByte
    else if (top.find? location).isSome then .error .alreadyExists
    else if target.isEmpty then .error .noEntry
    else .ok (top.alter (some (link target)) location)

/-- A tree with a node put at a path, and the folders on the way to it. A file that is already
there, also at the end of a link, is overwritten by a file; nothing else gives way. A path that
ends with a slash is fit for a folder only. -/
def put (top : Node) (path : String) (node : Node) : Except IoError Node := do
  let names ← namesIn path
  match node, names.getLast? with
  | folder _, _ => return (← top.makeFolders [] names).1
  | file _ _, none => .error .isDirectory
  | link _, none => .error .alreadyExists
  | file mode contents, some name =>
    let (top, here) ← top.makeFolders [] names.dropLast
    if path.endsWith "/" then .error .isDirectory else top.write here name mode contents
  | link target, some name =>
    let (top, here) ← top.makeFolders [] names.dropLast
    let linked ← top.linkTo here name target
    if path.endsWith "/" then .error .noEntry else return linked

/-- A tree without what is at a path. A link is removed, and not what it leads to. -/
def remove (top : Node) (path : String) : Except IoError Node := do
  let names ← namesIn path
  match names.getLast? with
  | none => return folder []
  | some name =>
    let here ← top.follow false maxLinks [] names.dropLast
    match top.find? here with
    | some (folder entries) =>
      if (child? name entries).isSome then return top.alter none (here ++ [name])
      else .error .noEntry
    | _ => .error .notDirectory

end Node

end Uncomment
