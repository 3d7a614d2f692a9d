/-
# Paths

A path is a text whose pieces are separated by slashes. Read as components, repeated
slashes and inner dots do not count; only a dot at the very start does. Paths are
compared component by component, so everything in a folder comes together and `a/b`
comes before `a-b`.

Paths and names are texts. A system may have names that are not UTF-8; they have no place
here, so nothing is said of a file whose path holds one.

Key definitions: `Path.components`, `Path.extension?`, `Path.join`, `Path.below?`, `Path.le`.
-/
import Uncomment.Text.Split

namespace Uncomment.Path

open Text

/-- A component of a path. -/
inductive Component where
  /-- The slash that starts an absolute path. -/
  | root
  /-- A dot that starts a path. -/
  | here
  /-- Two dots. -/
  | up
  /-- The name of a file or folder. -/
  | name (name : String)
deriving DecidableEq, Repr

/-- The pieces of a path between its slashes, the empty ones included. -/
def pieces (path : String) : List String := (splitOn '/' path.toList).map String.ofList

/-- The components in some pieces of a path, dots and empty pieces left out. -/
def componentsOf : List String → List Component
  | [] => []
  | "" :: ps => componentsOf ps
  | "." :: ps => componentsOf ps
  | ".." :: ps => .up :: componentsOf ps
  | p :: ps => .name p :: componentsOf ps

/-- The components of a path. -/
def components (path : String) : List Component :=
  match pieces path with
  | "" :: p :: ps => .root :: componentsOf (p :: ps)
  | "." :: ps => .here :: componentsOf ps
  | ps => componentsOf ps

/-- What follows the last dot of a file name, unless that dot is its first character or there
is none. -/
def nameExtension? (name : List Char) : Option (List Char) :=
  match name.reverse.dropWhile (· ≠ '.') with
  | [] => none
  | [_] => none
  | _ :: _ :: _ => some (name.reverse.takeWhile (· ≠ '.')).reverse

/-- The extension of the file that a path names. A path that ends in two dots, or has no
name in it, has none. -/
def extension? (path : String) : Option (List Char) :=
  match (components path).getLast? with
  | some (.name n) => nameExtension? n.toList
  | _ => none

/-- The path of a name in a folder. -/
def join (folder name : String) : String :=
  if folder.isEmpty || folder.toList.getLast? == some '/' then folder ++ name
  else folder ++ "/" ++ name

/-- What is left of the components `cs` after the components `ps`. -/
def dropComponents : List Component → List Component → Option (List Component)
  | [], cs => some cs
  | p :: ps, c :: cs => if p = c then dropComponents ps cs else none
  | _ :: _, [] => none

/-- A component as it is written. -/
def Component.text : Component → String
  | root => ""
  | here => "."
  | up => ".."
  | name n => n

/-- The path of what lies below a folder, starting from there; nothing for the folder itself
and for what lies elsewhere. -/
def below? (folder path : String) : Option String :=
  match dropComponents (components folder) (components path) with
  | none => none
  | some [] => none
  | some (c :: cs) => some ("/".intercalate ((c :: cs).map Component.text))

/-- The rank of a kind of component. -/
def Component.rank : Component → Nat
  | root => 0
  | here => 1
  | up => 2
  | name _ => 3

/-- The order of components: by kind, and names by their characters. -/
def Component.lt (c d : Component) : Bool :=
  match c, d with
  | name m, name n => m < n
  | c, d => c.rank < d.rank

/-- The order of lists of components: the first difference decides. -/
def componentsLe : List Component → List Component → Bool
  | [], _ => true
  | _ :: _, [] => false
  | c :: cs, d :: ds => c.lt d || (c = d && componentsLe cs ds)

/-- The order of paths. -/
def le (p q : String) : Bool := componentsLe (components p) (components q)

/-- Paths in increasing order. -/
def sort (paths : List String) : List String := paths.mergeSort le

end Uncomment.Path
