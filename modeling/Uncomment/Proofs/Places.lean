/-
# Places in a tree

What is seen at a place is a file with its contents, the target of a link, or the names in a
folder, so that a tree changes at a place only if something is written, made or removed right
there. Where a path leads depends on even less: on which places are links and which are
folders, and of these only on the ones that it asks for on its way. To replace a file by another
one changes what is seen at its place, and nowhere else, and leads no path astray.

Key definitions: `Sight`, `Node.look`, `Kind`, `Node.kindAt`, `Node.advance`, `Node.asks`. Main
statements: `Node.look_alter`, `Node.kindAt_alter`, `Node.follow_induction`, `Node.follow_congr`,
`Node.alter_free`.
-/
import Uncomment.Disk.Tree
import Uncomment.Proofs.Paths

namespace Uncomment

/-- What is seen at a place, without looking into the entries of a folder. -/
inductive Sight where
  | file (mode : Nat) (contents : ByteArray)
  | link (target : String)
  | folder (names : List String)

/-- What following a path can tell apart. -/
inductive Kind where
  | file
  | link (target : String)
  | folder
deriving DecidableEq, Repr

/-- The kind of what is seen. -/
def Sight.kind : Sight → Kind
  | file _ _ => .file
  | link target => .link target
  | folder _ => .folder

namespace Node

/-- What is seen of a node. -/
def sight : Node → Sight
  | file mode contents => .file mode contents
  | link target => .link target
  | folder entries => .folder (entries.map (·.1))

/-- What is seen at a location. -/
def look (t : Node) (location : Location) : Option Sight := (t.find? location).map sight

/-- The kind of what is at a location. -/
def kindAt (t : Node) (location : Location) : Option Kind := (t.look location).map Sight.kind

variable {t t' node : Node} {location place : Location}

/-! ### Entries of a folder -/

section Entries

variable {name other : String} {entries : List (String × Node)}

theorem child?_cons (name k : String) (node : Node) (entries : List (String × Node)) :
    child? name ((k, node) :: entries) = if name = k then some node else child? name entries := by
  unfold child?
  rw [List.lookup_cons]
  by_cases h : name = k
  · simp [h]
  · simp [h, beq_eq_false_iff_ne.mpr h]

@[simp]
theorem child?_setEntry_self (name : String) (node : Node) (entries : List (String × Node)) :
    child? name (setEntry name (some node) entries) = some node := by
  induction entries with
  | nil => simp [setEntry, child?_cons]
  | cons entry entries ih =>
    obtain ⟨k, old⟩ := entry
    rw [setEntry]
    split
    · simp [child?_cons]
    · next hk => rw [child?_cons, if_neg (Ne.symm hk), ih]

theorem child?_setEntry_of_ne (h : other ≠ name) (new : Option Node)
    (entries : List (String × Node)) :
    child? other (setEntry name new entries) = child? other entries := by
  induction entries with
  | nil => cases new <;> simp [setEntry, child?, h]
  | cons entry entries ih =>
    obtain ⟨k, old⟩ := entry
    rw [setEntry]
    split
    · next hk =>
      subst hk
      cases new <;> simp [child?_cons, h]
    · rw [child?_cons, child?_cons, ih]

/-- An entry that is replaced keeps its place among the names. -/
theorem names_setEntry (h : child? name entries = some node) (new : Node) :
    (setEntry name (some new) entries).map (·.1) = entries.map (·.1) := by
  induction entries with
  | nil => simp [child?] at h
  | cons entry entries ih =>
    obtain ⟨k, old⟩ := entry
    rw [setEntry]
    split
    · next hk => simp [hk]
    · next hk =>
      rw [child?_cons, if_neg (Ne.symm hk)] at h
      simp [ih h]

theorem setEntry_setEntry (name : String) (a : Node) (new : Option Node)
    (entries : List (String × Node)) :
    setEntry name new (setEntry name (some a) entries) = setEntry name new entries := by
  induction entries with
  | nil => simp [setEntry]
  | cons entry entries ih =>
    obtain ⟨k, old⟩ := entry
    by_cases hk : k = name
    · simp [setEntry, hk]
    · simp [setEntry, hk, ih]

theorem setEntry_eq_self (h : child? name entries = some node) :
    setEntry name (some node) entries = entries := by
  induction entries with
  | nil => simp [child?] at h
  | cons entry entries ih =>
    obtain ⟨k, old⟩ := entry
    rw [child?_cons] at h
    by_cases hk : k = name
    · rw [if_pos hk.symm] at h
      cases h
      simp [setEntry, hk]
    · rw [if_neg (Ne.symm hk)] at h
      simp [setEntry, hk, ih h]

theorem setEntry_free (h : child? name entries = none) : setEntry name none entries = entries := by
  induction entries with
  | nil => rfl
  | cons entry entries ih =>
    obtain ⟨k, old⟩ := entry
    rw [child?_cons] at h
    by_cases hk : k = name
    · rw [if_pos hk.symm] at h
      cases h
    · rw [if_neg (Ne.symm hk)] at h
      simp [setEntry, hk, ih h]

theorem child?_eq_none_of_notMem (h : name ∉ entries.map (·.1)) : child? name entries = none := by
  rw [child?, List.lookup_eq_none_iff]
  intro entry hentry
  have hne : name ≠ entry.1 := fun heq => h (List.mem_map.mpr ⟨entry, hentry, heq.symm⟩)
  simpa using hne

end Entries

/-! ### Looking after a change -/

@[simp]
theorem find?_nil (t : Node) : t.find? [] = some t := by cases t <;> rfl

@[simp]
theorem find?_folder_cons (entries : List (String × Node)) (name : String) (names : Location) :
    (folder entries).find? (name :: names) = (child? name entries).bind (·.find? names) := by
  rw [find?]
  cases child? name entries <;> rfl

theorem find?_append (t : Node) (front back : Location) :
    t.find? (front ++ back) = (t.find? front).bind (·.find? back) := by
  induction front generalizing t with
  | nil => simp
  | cons name names ih =>
    cases t with
    | folder entries =>
      rw [List.cons_append, find?_folder_cons, find?_folder_cons]
      cases child? name entries with
      | none => rfl
      | some node => exact ih node
    | _ => rfl

/-- A file is seen as it is. -/
theorem look_eq_file {mode : Nat} {contents : ByteArray} :
    t.look location = some (.file mode contents) ↔
      t.find? location = some (file mode contents) := by
  unfold look
  cases t.find? location with
  | none => simp
  | some node => cases node <;> simp [sight]

theorem kindAt_isSome : (t.kindAt place).isSome = (t.find? place).isSome := by
  simp [kindAt, look]

/-- The way to a place leads through a folder. -/
theorem exists_child?_of_find? {name : String} {names : Location}
    (h : t.find? (name :: names) = some node) :
    ∃ entries next, t = folder entries ∧ child? name entries = some next ∧
      next.find? names = some node := by
  cases t with
  | folder entries =>
    rw [find?_folder_cons] at h
    obtain ⟨next, hnext, hfind⟩ := Option.bind_eq_some_iff.mp h
    exact ⟨entries, next, rfl, hnext, hfind⟩
  | _ => simp [find?] at h

theorem alter_cons {name : String} {names : Location} {entries : List (String × Node)}
    {next : Node} (h : child? name entries = some next) (new : Node) :
    alter (some new) (name :: names) (folder entries) =
      folder (setEntry name (some (alter (some new) names next)) entries) := by
  cases names with
  | nil => simp [alter]
  | cons second names => simp [alter, h]

theorem find?_alter_self (h : t.find? location = some node) (new : Node) :
    (t.alter (some new) location).find? location = some new := by
  induction location generalizing t with
  | nil => simp [alter]
  | cons name names ih =>
    obtain ⟨entries, next, rfl, hnext, hfind⟩ := exists_child?_of_find? h
    rw [alter_cons hnext, find?_folder_cons, child?_setEntry_self]
    exact ih hfind

theorem alter_alter (h : t.find? location = some node) (a b : Node) :
    (t.alter (some a) location).alter (some b) location = t.alter (some b) location := by
  induction location generalizing t with
  | nil => simp [alter]
  | cons name names ih =>
    obtain ⟨entries, next, rfl, hnext, hfind⟩ := exists_child?_of_find? h
    rw [alter_cons hnext, alter_cons (child?_setEntry_self ..), ih hfind, setEntry_setEntry,
      alter_cons hnext]

theorem alter_eq_self (h : t.find? location = some node) :
    t.alter (some node) location = t := by
  induction location generalizing t with
  | nil => simpa [alter, eq_comm] using h
  | cons name names ih =>
    obtain ⟨entries, next, rfl, hnext, hfind⟩ := exists_child?_of_find? h
    rw [alter_cons hnext, ih hfind, setEntry_eq_self hnext]

/-- A change of an entry is a change of its folder. -/
theorem alter_concat {entries : List (String × Node)} (h : t.find? location = some (folder entries))
    (name : String) (new : Option Node) :
    t.alter new (location ++ [name]) =
      t.alter (some (folder (setEntry name new entries))) location := by
  induction location generalizing t with
  | nil =>
    cases h.symm.trans (find?_nil t)
    simp [alter]
  | cons first names ih =>
    obtain ⟨siblings, next, rfl, hnext, hfind⟩ := exists_child?_of_find? h
    rw [alter_cons hnext, ← ih hfind]
    cases names with
    | nil => simp [alter, hnext]
    | cons second names => simp [alter, hnext]

/-- The way to a place that is there leads along places that are. -/
theorem find?_isSome_above (h : (t.find? place).isSome) (hp : location <+: place) :
    (t.find? location).isSome := by
  obtain ⟨names, rfl⟩ := hp
  rw [find?_append] at h
  cases hl : t.find? location with
  | none => simp [hl] at h
  | some node => rfl

section Free

variable {name : String} {entries : List (String × Node)}
  (hfolder : t.find? location = some (folder entries))

include hfolder

/-- What is made under a free name and removed again leaves no trace. -/
theorem alter_free (hfree : child? name entries = none) (a : Node) :
    (t.alter (some a) (location ++ [name])).alter none (location ++ [name]) = t := by
  have hnow := find?_alter_self hfolder (folder (setEntry name (some a) entries))
  rw [alter_concat hfolder, alter_concat hnow, alter_alter hfolder, setEntry_setEntry,
    setEntry_free hfree, alter_eq_self hfolder]

theorem alter_alter_concat (name : String) (a b : Node) :
    (t.alter (some a) (location ++ [name])).alter (some b) (location ++ [name]) =
      t.alter (some b) (location ++ [name]) := by
  have hnow := find?_alter_self hfolder (folder (setEntry name (some a) entries))
  rw [alter_concat hfolder, alter_concat hnow, alter_alter hfolder, setEntry_setEntry,
    alter_concat hfolder]

theorem find?_alter_concat_self (name : String) (a : Node) :
    (t.alter (some a) (location ++ [name])).find? (location ++ [name]) = some a := by
  rw [alter_concat hfolder, find?_append, find?_alter_self hfolder]
  simp

theorem find?_alter_concat_of_ne {other : String} (hne : other ≠ name) (new : Option Node) :
    (t.alter new (location ++ [name])).find? (location ++ [other]) =
      t.find? (location ++ [other]) := by
  rw [alter_concat hfolder, find?_append, find?_alter_self hfolder, find?_append, hfolder]
  simp [child?_setEntry_of_ne hne]

end Free

section Replace

variable {mode mode' : Nat} {contents contents' : ByteArray}

/-- **A file that is replaced is seen to change, and nothing else is.** -/
theorem look_alter (h : t.find? location = some (file mode contents)) (mode' : Nat)
    (contents' : ByteArray) (place : Location) :
    (t.alter (some (file mode' contents')) location).look place =
      if place = location then some (.file mode' contents') else t.look place := by
  split
  · next heq => rw [heq, look, find?_alter_self h, Option.map_some, sight]
  · next hne =>
    induction location generalizing t place with
    | nil =>
      -- a file has no places below it
      obtain ⟨k, ks, rfl⟩ := List.exists_cons_of_ne_nil hne
      cases h.symm.trans (find?_nil t)
      rfl
    | cons name names ih =>
      obtain ⟨entries, next, rfl, hnext, hfind⟩ := exists_child?_of_find? h
      rw [alter_cons hnext]
      cases place with
      | nil => simp [look, sight, names_setEntry hnext]
      | cons k ks =>
        rw [look, look, find?_folder_cons, find?_folder_cons]
        by_cases hk : k = name
        · subst hk
          rw [child?_setEntry_self, hnext]
          exact ih hfind ks (fun heq => hne (by rw [heq]))
        · rw [child?_setEntry_of_ne hk]

theorem kindAt_alter (h : t.find? location = some (file mode contents)) (mode' : Nat)
    (contents' : ByteArray) (place : Location) :
    (t.alter (some (file mode' contents')) location).kindAt place = t.kindAt place := by
  rw [kindAt, kindAt, look_alter h]
  split
  · next heq =>
    rw [heq, look, h]
    rfl
  · rfl

end Replace

/-! ### Following a path -/

@[simp]
theorem startOf_nil (path : String) : startOf [] path = [] := by simp [startOf]

/-- One step along a path: the number of links that may still be met, the place reached, and the
pieces that a link puts in front of the rest. Only the kinds of two places matter. -/
def advance (t : Node) (links : Nat) (here : Location) (piece : String) :
    Except IoError (Nat × Location × List String) :=
  match t.kindAt here with
  | none => .error .noEntry
  | some .folder =>
    if piece = "" ∨ piece = "." then .ok (links, here, [])
    else if piece = ".." then .ok (links, here.dropLast, [])
    else if maxNameSize < piece.utf8ByteSize then .error .nameTooLong
    else
      match t.kindAt (here ++ [piece]) with
      | none => .error .noEntry
      | some (.link target) =>
        match links with
        | 0 => .error .linkLoop
        | links + 1 => .ok (links, startOf here target, Path.pieces target)
      | some _ => .ok (links, here ++ [piece], [])
  | some _ => .error .notDirectory

/-- A path is followed step by step. -/
theorem follow_cons (t : Node) (links : Nat) (here : Location) (piece : String)
    (rest : List String) :
    t.follow false links here (piece :: rest) =
      match t.advance links here piece with
      | .error e => .error e
      | .ok (links', there, more) => t.follow false links' there (more ++ rest) := by
  rw [follow, advance, kindAt, kindAt, look, look, find?_append]
  cases t.find? here with
  | none => rfl
  | some found =>
    cases found with
    | folder entries =>
      simp only [Option.bind_some, find?_folder_cons, Option.map_some, sight, Sight.kind]
      by_cases hdot : piece = "" ∨ piece = "."
      · simp only [hdot, if_true, List.nil_append]
      by_cases hup : piece = ".."
      · rw [if_neg hdot, if_neg hdot, if_pos hup, if_pos hup]
        rfl
      by_cases hlong : maxNameSize < piece.utf8ByteSize
      · simp only [hdot, hup, hlong, if_false, if_true]
      simp only [hdot, hup, hlong, if_false]
      cases child? piece entries with
      | none => rfl
      | some next =>
        cases next with
        | link target =>
          cases links with
          | zero => rfl
          | succ links =>
            rw [Option.bind_some, find?_nil]
            rfl
        | _ =>
          rw [Option.bind_some, find?_nil]
          rfl
    | _ => rfl

/-- A step consumes a piece, or a link. -/
theorem advance_cases {t : Node} {links links' : Nat} {here there : Location} {piece : String}
    {more : List String} (h : t.advance links here piece = .ok (links', there, more)) :
    links' = links ∧ more = [] ∨ links' < links := by
  unfold advance at h
  repeat' split at h
  all_goals cases h
  · exact Or.inl ⟨rfl, rfl⟩
  · exact Or.inl ⟨rfl, rfl⟩
  · exact Or.inr (Nat.lt_succ_self _)
  · exact Or.inl ⟨rfl, rfl⟩

/-- What holds at the end of every path and where a step fails, and before a step if it holds after
it, holds of every path. -/
theorem follow_induction (t : Node) {P : Nat → Location → List String → Prop}
    (stop : ∀ links here, P links here [])
    (fails : ∀ links here piece rest e, t.advance links here piece = .error e →
      P links here (piece :: rest))
    (step : ∀ links here piece rest links' there more,
      t.advance links here piece = .ok (links', there, more) → P links' there (more ++ rest) →
      P links here (piece :: rest))
    (links : Nat) (here : Location) (pieces : List String) : P links here pieces := by
  match pieces with
  | [] => exact stop links here
  | piece :: rest =>
    cases hstep : t.advance links here piece with
    | error e => exact fails links here piece rest e hstep
    | ok next =>
      obtain ⟨links', there, more⟩ := next
      have hdec := advance_cases hstep
      have hrest := follow_induction t stop fails step links' there (more ++ rest)
      exact step links here piece rest links' there more hstep hrest
termination_by (links, pieces.length)
decreasing_by
  rcases hdec with ⟨rfl, rfl⟩ | hlt
  · exact Prod.Lex.right _ (by simp)
  · exact Prod.Lex.left _ _ hlt

theorem follow_of_locate {path : String} (h : t.locate path = .ok location) :
    t.follow false maxLinks [] (Path.pieces path) = .ok location := by
  unfold locate at h
  split at h
  · cases h
  · split at h
    · cases h
    · split at h
      · cases h
      · exact h

theorem resolve_eq_ok {path : String} :
    t.resolve path = .ok (location, node) ↔
      t.locate path = .ok location ∧ t.find? location = some node := by
  unfold resolve
  cases t.locate path with
  | error e => simp [bind, Except.bind]
  | ok found =>
    simp only [bind, Except.bind, Except.ok.injEq]
    cases hfind : t.find? found with
    | none =>
      constructor
      · intro h
        cases h
      · rintro ⟨rfl, h⟩
        simp [hfind] at h
    | some n =>
      constructor
      · intro h
        cases h
        exact ⟨rfl, hfind⟩
      · rintro ⟨rfl, h⟩
        rw [hfind] at h
        cases h
        rfl

/-- A path never leads to a file at the top: it starts from a folder. -/
theorem ne_nil_of_resolve {path : String} {mode : Nat} {contents : ByteArray}
    (h : t.resolve path = .ok (location, file mode contents)) : location ≠ [] := by
  obtain ⟨hlocate, hfind⟩ := resolve_eq_ok.mp h
  rintro rfl
  have hkind : t.kindAt [] = some .file := by
    rw [kindAt, look, hfind]
    rfl
  have hfollow := follow_of_locate hlocate
  cases hpieces : Path.pieces path with
  | nil => exact Path.pieces_ne_nil path hpieces
  | cons piece rest =>
    rw [hpieces, follow_cons, advance, hkind] at hfollow
    cases hfollow

/-! ### What a path asks for -/

/-- The places about which a path asks on its way, the last one included if the path leads nowhere.
-/
def asks (t : Node) (links : Nat) (here : Location) (pieces : List String) : List Location :=
  match pieces with
  | [] => []
  | piece :: rest =>
    (here ++ [piece]) ::
      match _hstep : t.advance links here piece with
      | .error _ => []
      | .ok (links', there, more) => t.asks links' there (more ++ rest)
termination_by (links, pieces.length)
decreasing_by
  rcases advance_cases _hstep with ⟨rfl, rfl⟩ | hlt
  · exact Prod.Lex.right _ (by simp)
  · exact Prod.Lex.left _ _ hlt

theorem asks_cons (t : Node) (links : Nat) (here : Location) (piece : String) (rest : List String) :
    t.asks links here (piece :: rest) = (here ++ [piece]) ::
      match t.advance links here piece with
      | .error _ => []
      | .ok (links', there, more) => t.asks links' there (more ++ rest) := by
  rw [asks]
  split <;> simp_all

/-- Whether a path only asks for what is there, but for dots. -/
def AsksKnown (t : Node) (links : Nat) (here : Location) (pieces : List String) : Prop :=
  ∀ place ∈ t.asks links here pieces,
    (t.find? place).isSome ∨ ∃ dir, ∃ piece ∈ ["", ".", ".."], place = dir ++ [piece]

/-- A step along a path leads to a place that is there, and asks for one that is there or for dots.
-/
theorem isSome_of_advance {links links' : Nat} {here there : Location} {piece : String}
    {more : List String} (h : t.advance links here piece = .ok (links', there, more)) :
    (t.find? there).isSome ∧
      ((t.find? (here ++ [piece])).isSome ∨ piece ∈ ["", ".", ".."]) := by
  have hhere : (t.find? here).isSome := by
    rw [← kindAt_isSome]
    unfold advance at h
    cases hkind : t.kindAt here with
    | none =>
      rw [hkind] at h
      cases h
    | some kind => rfl
  unfold advance at h
  repeat' split at h
  all_goals cases h
  · next hdot => exact ⟨hhere, Or.inr (by rcases hdot with rfl | rfl <;> simp)⟩
  · next hup =>
    exact ⟨find?_isSome_above hhere (List.dropLast_prefix here), Or.inr (by simp [hup])⟩
  · next target hkind _ =>
    have hstart : (t.find? (startOf here target)).isSome := by
      unfold startOf
      split
      · simp
      · exact hhere
    refine ⟨hstart, Or.inl ?_⟩
    rw [← kindAt_isSome, hkind]
    rfl
  · next hkind =>
    have hnext : (t.find? (here ++ [piece])).isSome := by
      rw [← kindAt_isSome, hkind]
      rfl
    exact ⟨hnext, Or.inl hnext⟩

/-- **A path is led astray only by what it asks for**, and of that by the kinds of places only. -/
theorem follow_congr {links : Nat} {here : Location} {pieces : List String}
    (hthere : ∀ place, (t.find? place).isSome → t'.kindAt place = t.kindAt place)
    (hhere : (t.find? here).isSome)
    (hasks : ∀ place ∈ t.asks links here pieces, t'.kindAt place = t.kindAt place) :
    t'.follow false links here pieces = t.follow false links here pieces := by
  have hadvance {links : Nat} {here : Location} {piece : String} {rest : List String}
      (hhere : (t.find? here).isSome)
      (hasks : ∀ place ∈ t.asks links here (piece :: rest), t'.kindAt place = t.kindAt place) :
      t'.advance links here piece = t.advance links here piece := by
    rw [asks_cons, List.forall_mem_cons] at hasks
    rw [advance, advance, hthere here hhere, hasks.1]
  induction links, here, pieces using follow_induction t with
  | stop links here => rw [follow, follow]
  | fails links here piece rest e hstep =>
    rw [follow_cons, follow_cons, hadvance hhere hasks, hstep]
  | step links here piece rest links' there more hstep ih =>
    rw [follow_cons, follow_cons, hadvance hhere hasks, hstep]
    rw [asks_cons, hstep, List.forall_mem_cons] at hasks
    exact ih (isSome_of_advance hstep).1 hasks.2

/-- A path that leads somewhere only asks for places that are there, but for dots. -/
theorem asksKnown_of_follow {links : Nat} {here : Location} {pieces : List String}
    (hhere : (t.find? here).isSome) (h : t.follow false links here pieces = .ok location) :
    (t.find? location).isSome ∧ t.AsksKnown links here pieces := by
  induction links, here, pieces using follow_induction t with
  | stop links here =>
    rw [follow] at h
    cases h
    exact ⟨hhere, by simp [AsksKnown, asks]⟩
  | fails links here piece rest e hstep =>
    rw [follow_cons, hstep] at h
    cases h
  | step links here piece rest links' there more hstep ih =>
    rw [follow_cons, hstep] at h
    obtain ⟨hthere, hasked⟩ := isSome_of_advance hstep
    obtain ⟨hlocation, hrest⟩ := ih hthere h
    refine ⟨hlocation, ?_⟩
    rw [AsksKnown, asks_cons, hstep, List.forall_mem_cons]
    exact ⟨hasked.imp_right fun hdots => ⟨here, piece, hdots, rfl⟩, hrest⟩

/-- What a path asks for, it asks for part by part. -/
theorem asks_append {links : Nat} {here : Location} {front back : List String}
    (h : place ∈ t.asks links here (front ++ back)) :
    place ∈ t.asks links here front ∨ ∃ links' middle,
      t.follow false links here front = .ok middle ∧ place ∈ t.asks links' middle back := by
  induction links, here, front using follow_induction t with
  | stop links here => exact Or.inr ⟨links, here, by rw [follow], h⟩
  | fails links here piece rest e hstep =>
    rw [List.cons_append, asks_cons, hstep] at h
    rw [asks_cons, hstep]
    exact Or.inl h
  | step links here piece rest links' there more hstep ih =>
    rw [List.cons_append, asks_cons, hstep, List.mem_cons] at h
    rw [asks_cons, List.mem_cons, follow_cons, hstep]
    rcases h with h | h
    · exact Or.inl (Or.inl h)
    · simp only [← List.append_assoc] at h
      exact (ih h).imp_left Or.inr

theorem locate_congr (h : ∀ place, t.kindAt place = t'.kindAt place) (path : String) :
    t.locate path = t'.locate path := by
  rw [locate, locate, follow_congr (fun place _ => h place) (by simp) fun place _ => h place]

end Node

end Uncomment
