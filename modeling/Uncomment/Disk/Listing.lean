/-
# What lies below a folder

A listing is the shape of a folder: names of files, links and folders, and what lies in
those in turn. The files to process are found in it: the regular files with one of the
extensions asked for, except in folders that are left alone. A link is neither a file
nor a folder here, so no link is followed and none is listed.

Key definitions: `Listing`, `Listing.sources`.
-/
import Uncomment.Options

namespace Uncomment

/-- The shape of what a path leads to. -/
inductive Listing where
  | file
  | link
  | folder (entries : List (String × Listing))
deriving Repr

namespace Listing

/-- Whether this is a folder. -/
def isFolder : Listing → Bool
  | folder _ => true
  | _ => false

mutual

/-- The files to process at a path. -/
def sources (o : Options) (path : String) : Listing → List String
  | file => if o.matchesExtension path then [path] else []
  | link => []
  | folder entries => entrySources o path entries

/-- The files to process among the entries of a folder. -/
def entrySources (o : Options) (path : String) : List (String × Listing) → List String
  | [] => []
  | (name, entry) :: entries =>
    let found :=
      if entry.isFolder && o.skips name then [] else entry.sources o (Path.join path name)
    found ++ entrySources o path entries

end

end Listing

end Uncomment
