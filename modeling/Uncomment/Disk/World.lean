/-
# A machine in memory

A world is a tree of files in which a run can take place, together with what the machine
does of its own accord in it: what it refuses to do, and which names it picks for drafts. A
refusal is a function of the action alone, so that a failure can be placed at any step. A
draft may get any name that is free, another one each time.

Key definitions: `Action`, `Namer`, `World`, `Session`. Key theorem: `Namer.usualName_notMem`.
-/
import Uncomment.Disk.Host
import Uncomment.Disk.Tree

namespace Uncomment

/-- A draft in a tree: where it is, and where the file is that it will replace. -/
structure TreeDraft where
  target : Location
  location : Location
deriving DecidableEq, Repr

/-- Something that a machine may refuse to do. -/
inductive Action where
  | survey (path : String)
  | read (path : String)
  | draft (path : String)
  | fill (draft : TreeDraft) (text : String)
  | flush (draft : TreeDraft)
  | protect (draft : TreeDraft)
  | commit (draft : TreeDraft)
deriving DecidableEq, Repr

/-- How drafts get their names: the draft of a file gets a name that is not taken in its
folder, which may depend on all that has happened so far. -/
structure Namer where
  /-- The name picked for the draft of the file at a location. -/
  pick (events : List Event) (target : Location) (taken : List String) : String
  fresh (events : List Event) (target : Location) (taken : List String) :
    pick events target taken ∉ taken
  not_dots (events : List Event) (target : Location) (taken : List String) :
    pick events target taken ∉ ["", ".", ".."]

namespace Namer

/-- The name by which messages call every draft. -/
def draftName : String := ".tmpXXXXXX"

theorem length_draftName : draftName.length = 10 := by decide

/-- The usual name, or one that is longer than all names taken. -/
def usualName (taken : List String) : String :=
  if taken.contains draftName then
    draftName ++ String.ofList (List.replicate (taken.foldr (fun n k => n.length + k) 0) 'X')
  else draftName

theorem length_le_foldr {taken : List String} {name : String} (h : name ∈ taken) :
    name.length ≤ taken.foldr (fun n k => n.length + k) 0 := by
  induction taken with
  | nil => cases h
  | cons first taken ih =>
    rw [List.foldr_cons]
    rcases List.mem_cons.mp h with rfl | h
    · omega
    · have := ih h
      omega

theorem usualName_notMem (taken : List String) : usualName taken ∉ taken := by
  unfold usualName
  split
  · intro hmem
    have hle := length_le_foldr hmem
    rw [String.length_append, String.length_ofList, List.length_replicate, length_draftName] at hle
    omega
  · next h => simpa using h

theorem length_usualName (taken : List String) : draftName.length ≤ (usualName taken).length := by
  unfold usualName
  split
  · rw [String.length_append]
    omega
  · exact Nat.le_refl _

/-- Drafts with the usual name, unless it is taken. -/
def usual : Namer where
  pick _ _ := usualName
  fresh _ _ := usualName_notMem
  not_dots _ _ taken := by
    intro hmem
    have hlong := length_usualName taken
    have hshort : ∀ name ∈ ["", ".", ".."], name.length ≤ 2 := by decide
    have := hshort _ hmem
    rw [length_draftName] at hlong
    omega

end Namer

/-- A tree of files, and the machine that it is on. -/
structure World where
  tree : Node
  /-- What messages put before an absolute path. -/
  name : String := ""
  /-- Why an action is refused, if it is. -/
  refuses : Action → Option IoError := fun _ => none
  /-- How drafts get their names. -/
  namer : Namer := .usual
  /-- What has happened, last event first. -/
  events : List Event := []

namespace World

/-- The access rights of a new draft. -/
def draftMode : Nat := 0o600

/-- The absolute path of a location, as messages have it. -/
def absolute (w : World) (location : Location) : String :=
  w.name ++ location.foldl Path.join "/"

/-- What messages call a draft: its folder and the usual name. -/
def draftPath (w : World) (d : TreeDraft) : String :=
  w.absolute (d.location.dropLast ++ [Namer.draftName])

/-- The names taken in the folder at a location. -/
def taken (w : World) (folder : Location) : List String :=
  match w.tree.find? folder with
  | some (.folder entries) => entries.map (·.1)
  | _ => []

/-- The location of a new draft of the file at a location. -/
def freshLocation (w : World) (target : Location) : Location :=
  target.dropLast ++ [w.namer.pick w.events target (w.taken target.dropLast)]

/-- The world with what is at a location replaced, added or taken away. -/
def set (w : World) (location : Location) (node : Option Node) : World :=
  { w with tree := w.tree.alter node location }

/-- The contents of the file that a path leads to. -/
def contents (w : World) (path : String) : Except IoError ByteArray :=
  match w.tree.resolve path with
  | .error e => .error e
  | .ok (_, .file _ bytes) => .ok bytes
  | .ok (_, _) => .error .isDirectory

/-- The access rights of the file at a location. -/
def modeAt (w : World) (location : Location) : Nat :=
  match w.tree.find? location with
  | some (.file mode _) => mode
  | _ => draftMode

/-- A world with an empty draft of the file that a path leads to. -/
def openDraft (w : World) (path : String) : Except IoError (TreeDraft × World) :=
  match w.tree.locate path with
  | .error e => .error e
  | .ok target =>
    let location := w.freshLocation target
    .ok (⟨target, location⟩, w.set location (some (.file draftMode .empty)))

/-- The world in which a draft has taken the place of its file. -/
def commitDraft (w : World) (d : TreeDraft) : World :=
  match w.tree.find? d.location with
  | some node => (w.set d.location none).set d.target (some node)
  | none => w

/-- The world in which a draft has another text. -/
def fillDraft (w : World) (d : TreeDraft) (text : String) : World :=
  w.set d.location (some (.file (w.modeAt d.location) text.toUTF8))

/-- The world in which a draft has the access rights of its file. -/
def protectDraft (w : World) (d : TreeDraft) : World :=
  match w.tree.find? d.location with
  | some (.file _ bytes) => w.set d.location (some (.file (w.modeAt d.target) bytes))
  | _ => w

/-- The result of an action, unless it is refused. -/
def attempt (w : World) (action : Action) (result : Except IoError (α × World)) :
    Except IoError α × World :=
  match w.refuses action with
  | some e => (.error e, w)
  | none =>
    match result with
    | .error e => (.error e, w)
    | .ok (a, w') => (.ok a, w')

end World

/-- What is done in a world. -/
abbrev Session := StateM World

instance : Host Session where
  Draft := TreeDraft
  survey _ path := fun w =>
    w.attempt (.survey path) ((w.tree.resolve path).map fun found => (found.2.listing, w))
  read path := fun w => w.attempt (.read path) ((w.contents path).map fun bytes => (bytes, w))
  draft path := fun w => w.attempt (.draft path) (w.openDraft path)
  fill d text := fun w =>
    match w.attempt (.fill d text) (.ok ((), w.fillDraft d text)) with
    | (.error e, w') => (.error (.concerning e (w.draftPath d)), w')
    | done => done
  flush d := fun w => w.attempt (.flush d) (.ok ((), w))
  protect d := fun w => w.attempt (.protect d) (.ok ((), w.protectDraft d))
  commit d := fun w => w.attempt (.commit d) (.ok ((), w.commitDraft d))
  discard d := fun w => ((), w.set d.location none)
  note e := fun w => ((), { w with events := e :: w.events })

end Uncomment
