/-
# Changes at different places

Changes at places of which neither lies below the other can be made in either order, unless both
add something to the end of one folder. So a tree with drafts in it and some files replaced is told
by two lists: without the drafts, whichever order they came in, it is the first tree with the files
replaced, in whichever order that happened.

Key definitions: `Asunder`, `Node.outline`, `Node.clear`, `Node.settle`, `Node.Patching`. Main
statements: `Node.alter_comm`, `Node.outline_alter`, `Node.clear_middle`,
`Node.Patching.settle_middle`.
-/
import Uncomment.Proofs.Drafts

namespace Uncomment

/-- Neither of two locations lies at or below the other. -/
def Asunder (l l' : Location) : Prop := ¬ l <+: l' ∧ ¬ l' <+: l

/-- What is seen, but for the names in a folder. -/
def Sight.plain : Sight → Sight
  | folder _ => .folder []
  | sight => sight

theorem Sight.kind_plain (s : Sight) : s.plain.kind = s.kind := by cases s <;> rfl

namespace Node

variable {t t' node : Node} {location place l l' : Location}

/-! ### Two changes -/

theorem setEntry_comm {name other : String} (hne : name ≠ other) {a : Option Node}
    {entries : List (String × Node)} (ha : a.isSome → (child? name entries).isSome)
    (b : Option Node) :
    setEntry name a (setEntry other b entries) = setEntry other b (setEntry name a entries) := by
  induction entries with
  | nil =>
    cases a with
    | none => cases b <;> simp [setEntry, hne.symm]
    | some node => simp [child?] at ha
  | cons entry entries ih =>
    obtain ⟨k, old⟩ := entry
    by_cases hk : k = name
    · subst hk
      cases a <;> simp [setEntry, hne]
    · have ha' : a.isSome → (child? name entries).isSome := by
        rwa [child?_cons, if_neg (Ne.symm hk)] at ha
      by_cases hother : k = other
      · subst hother
        cases b <;> simp [setEntry, hk]
      · simp [setEntry, hk, hother, ih ha']

/-- What becomes of an entry if something changes at or below it: nothing, or it is replaced, added
or taken away. -/
def entryAfter (new : Option Node) (names : Location) (old : Option Node) :
    Option (Option Node) :=
  if names = [] then some new else old.map fun node => some (alter new names node)

theorem alter_folder_cons (new : Option Node) (name : String) (names : Location)
    (entries : List (String × Node)) :
    alter new (name :: names) (folder entries) =
      folder (match entryAfter new names (child? name entries) with
        | none => entries
        | some entry => setEntry name entry entries) := by
  cases names with
  | nil => simp [alter, entryAfter]
  | cons second names =>
    rw [alter, entryAfter, if_neg (by simp)]
    · cases child? name entries <;> rfl
    · simp

theorem alter_cons_of_not_folder (h : ∀ entries, t ≠ folder entries) (new : Option Node)
    (name : String) (names : Location) : alter new (name :: names) t = t := by
  cases t with
  | folder entries => exact absurd rfl (h entries)
  | file mode contents => cases names <;> rfl
  | link target => cases names <;> rfl

theorem child?_alter_of_ne {name other : String} (hne : other ≠ name) (entry : Option (Option Node))
    (entries : List (String × Node)) :
    child? other (match entry with
      | none => entries
      | some entry => setEntry name entry entries) = child? other entries := by
  cases entry with
  | none => rfl
  | some entry => exact child?_setEntry_of_ne hne entry entries

/-- Nothing is added to a folder by what is already there. -/
theorem isSome_of_entryAfter {a : Option Node} {name : String} {names : Location}
    {entries : List (String × Node)} {entry : Option Node}
    (ha : a.isSome → ((folder entries).find? (name :: names)).isSome)
    (hentry : entryAfter a names (child? name entries) = some entry) (hsome : entry.isSome) :
    (child? name entries).isSome := by
  unfold entryAfter at hentry
  by_cases hnil : names = []
  · rw [if_pos hnil] at hentry
    cases hentry
    simpa [hnil] using ha hsome
  · rw [if_neg hnil] at hentry
    obtain ⟨next, hnext, -⟩ := Option.map_eq_some_iff.mp hentry
    simp [hnext]

/-- **Changes at places that lie asunder can be made in either order**, if one of them adds nothing
new. -/
theorem alter_comm (h : Asunder l l') {a : Option Node} (ha : a.isSome → (t.find? l).isSome)
    (b : Option Node) : (t.alter b l').alter a l = (t.alter a l).alter b l' := by
  induction l generalizing t l' with
  | nil => exact absurd (List.nil_prefix) h.1
  | cons name names ih =>
    cases l' with
    | nil => exact absurd (List.nil_prefix) h.2
    | cons other others =>
      by_cases hfolder : ∃ entries, t = folder entries
      · obtain ⟨entries, rfl⟩ := hfolder
        by_cases hname : name = other
        · subst hname
          -- both changes are made below the same entry
          have hbelow : Asunder names others :=
            ⟨fun hp => h.1 (List.cons_prefix_cons.mpr ⟨rfl, hp⟩),
              fun hp => h.2 (List.cons_prefix_cons.mpr ⟨rfl, hp⟩)⟩
          have hnames : names ≠ [] := by
            rintro rfl
            exact hbelow.1 List.nil_prefix
          have hothers : others ≠ [] := by
            rintro rfl
            exact hbelow.2 List.nil_prefix
          cases hchild : child? name entries with
          | none => simp [alter_folder_cons, entryAfter, hnames, hothers, hchild]
          | some next =>
            have ha' : a.isSome → (next.find? names).isSome := by
              simpa [hchild] using ha
            simp [alter_folder_cons, entryAfter, hnames, hothers, hchild, setEntry_setEntry,
              ih hbelow ha']
        · rw [alter_folder_cons, alter_folder_cons, alter_folder_cons, alter_folder_cons,
            child?_alter_of_ne hname, child?_alter_of_ne (Ne.symm hname)]
          cases hfirst : entryAfter a names (child? name entries) with
          | none => rfl
          | some entry =>
            cases entryAfter b others (child? other entries) with
            | none => rfl
            | some entry' => simp only [setEntry_comm hname (isSome_of_entryAfter ha hfirst)]
      · have hleaf : ∀ entries, t ≠ folder entries := fun entries heq => hfolder ⟨entries, heq⟩
        rw [alter_cons_of_not_folder hleaf, alter_cons_of_not_folder hleaf,
          alter_cons_of_not_folder hleaf]

/-! ### What is seen of a tree, but for the names in a folder -/

/-- What is seen at a location, but for the names in a folder. -/
def outline (t : Node) (location : Location) : Option Sight := (t.look location).map Sight.plain

theorem kindAt_eq_outline (t : Node) (location : Location) :
    t.kindAt location = (t.outline location).map Sight.kind := by
  rw [outline, Option.map_map, kindAt]
  congr 1
  exact funext fun s => s.kind_plain.symm

theorem outline_eq_file {mode : Nat} {contents : ByteArray} :
    t.outline location = some (.file mode contents) ↔
      t.find? location = some (file mode contents) := by
  unfold outline look
  cases t.find? location with
  | none => simp
  | some node => cases node <;> simp [sight, Sight.plain]

/-- **A change is seen only at its place and below it**, but for names in a folder. -/
theorem outline_alter (h : ¬ location <+: place) (new : Option Node) :
    (t.alter new location).outline place = t.outline place := by
  induction location generalizing t place with
  | nil => exact absurd List.nil_prefix h
  | cons name names ih =>
    by_cases hfolder : ∃ entries, t = folder entries
    · obtain ⟨entries, rfl⟩ := hfolder
      rw [alter_folder_cons]
      cases place with
      | nil => simp [outline, look, sight, Sight.plain]
      | cons k ks =>
        by_cases hk : k = name
        · subst hk
          have hbelow : ¬ names <+: ks := fun hp => h (List.cons_prefix_cons.mpr ⟨rfl, hp⟩)
          have hnames : names ≠ [] := by
            rintro rfl
            exact hbelow List.nil_prefix
          cases hchild : child? k entries with
          | none => simp [entryAfter, hnames]
          | some next =>
            have hnext := ih hbelow (t := next)
            unfold outline look at hnext ⊢
            simpa [entryAfter, hnames, hchild] using hnext
        · rw [outline, outline, look, look, find?_folder_cons, find?_folder_cons,
            child?_alter_of_ne hk]
    · rw [alter_cons_of_not_folder fun entries heq => hfolder ⟨entries, heq⟩]

/-- Nothing lies below a file. -/
theorem find?_below_file {mode : Nat} {contents : ByteArray}
    (h : t.find? location = some (file mode contents)) (hbelow : location <+: place)
    (hne : place ≠ location) : t.find? place = none := by
  obtain ⟨names, rfl⟩ := hbelow
  rw [find?_append, h]
  cases names with
  | nil => simp at hne
  | cons name names => rfl

/-- Files at different places lie asunder. -/
theorem asunder_of_files {mode mode' : Nat} {contents contents' : ByteArray}
    (h : t.find? l = some (file mode contents)) (h' : t.find? l' = some (file mode' contents'))
    (hne : l ≠ l') : Asunder l l' := by
  refine ⟨fun hbelow => ?_, fun hbelow => ?_⟩
  · rw [find?_below_file h hbelow (Ne.symm hne)] at h'
    cases h'
  · rw [find?_below_file h' hbelow hne] at h
    cases h

/-- A file that is not at or below a place is not touched by a change there. -/
theorem find?_file_alter {mode : Nat} {contents : ByteArray}
    (h : t.find? place = some (file mode contents)) (hplace : ¬ location <+: place)
    (new : Option Node) : (t.alter new location).find? place = t.find? place := by
  rw [h, ← outline_eq_file, outline_alter hplace, outline_eq_file, h]

/-- What is removed may have been replaced before. -/
theorem alter_none_alter {name : String} (h : t.find? (location ++ [name]) = some node)
    (a : Node) :
    (t.alter (some a) (location ++ [name])).alter none (location ++ [name]) =
      t.alter none (location ++ [name]) := by
  rw [find?_append] at h
  obtain ⟨found, hfolder, hchild⟩ := Option.bind_eq_some_iff.mp h
  obtain ⟨entries, next, rfl, -, -⟩ := exists_child?_of_find? hchild
  have hnow := find?_alter_self hfolder (folder (setEntry name (some a) entries))
  rw [alter_concat hfolder, alter_concat hnow, alter_alter hfolder, setEntry_setEntry,
    alter_concat hfolder]

/-- A file lies asunder from a free name in a folder. -/
theorem asunder_of_free {name : String} {entries : List (String × Node)} {mode : Nat}
    {contents : ByteArray} (hfolder : t.find? location = some (folder entries))
    (hfree : child? name entries = none) (hfile : t.find? l = some (file mode contents)) :
    Asunder l (location ++ [name]) := by
  have hnone : t.find? (location ++ [name]) = none := by
    rw [find?_append, hfolder]
    simp [hfree]
  refine ⟨fun hp => ?_, fun hp => ?_⟩
  · rcases List.prefix_concat_iff.mp hp with rfl | hp
    · rw [hnone] at hfile
      cases hfile
    · by_cases heq : location = l
      · rw [heq, hfile] at hfolder
        cases hfolder
      · rw [find?_below_file hfile hp heq] at hfolder
        cases hfolder
  · have hsome := find?_isSome_above (by rw [hfile]; rfl) hp
    rw [hnone] at hsome
    cases hsome

/-! ### Some changes -/

/-- A tree without what is at some locations. -/
def clear (t : Node) (locations : List Location) : Node :=
  locations.foldl (fun t l => t.alter none l) t

/-- A tree with other nodes at some locations. -/
def settle (t : Node) (patches : List (Location × Node)) : Node :=
  patches.foldl (fun t p => t.alter (some p.2) p.1) t

section Clear

variable {ls ls' : List Location}

theorem outline_clear (h : ∀ l ∈ ls, ¬ l <+: place) :
    (t.clear ls).outline place = t.outline place := by
  induction ls generalizing t with
  | nil => rfl
  | cons l ls ih =>
    obtain ⟨hl, hls⟩ := List.forall_mem_cons.mp h
    exact (ih hls).trans (outline_alter hl none)

/-- Something else can be changed before or after some locations are cleared. -/
theorem clear_alter (h : ∀ l' ∈ ls, Asunder l' l) (new : Option Node) :
    (t.alter new l).clear ls = (t.clear ls).alter new l := by
  induction ls generalizing t with
  | nil => rfl
  | cons first ls ih =>
    obtain ⟨hfirst, hls⟩ := List.forall_mem_cons.mp h
    have hcomm : (t.alter new l).alter none first = (t.alter none first).alter new l :=
      alter_comm hfirst (by simp) new
    calc (t.alter new l).clear (first :: ls) = ((t.alter none first).alter new l).clear ls := by
          rw [← hcomm]
          rfl
      _ = ((t.alter none first).clear ls).alter new l := ih hls

/-- One location can be cleared first. -/
theorem clear_middle (h : ∀ l' ∈ ls, Asunder l' l) :
    t.clear (ls ++ l :: ls') = (t.alter none l).clear (ls ++ ls') := by
  have hfirst := clear_alter (t := t) h none
  simp [clear, List.foldl_append] at hfirst ⊢
  rw [hfirst]

end Clear

/-- Files at different places are to be replaced by files. -/
structure Patching (t : Node) (patches : List (Location × Node)) : Prop where
  files : ∀ p ∈ patches, ∃ mode contents, t.find? p.1 = some (file mode contents)
  byFiles : ∀ p ∈ patches, ∃ mode contents, p.2 = file mode contents
  apart : patches.Pairwise fun p q => p.1 ≠ q.1

namespace Patching

variable {patches front back : List (Location × Node)} {p : Location × Node}

theorem tail (h : Patching t (p :: patches)) : Patching (t.alter (some p.2) p.1) patches := by
  obtain ⟨hp, hfiles⟩ := List.forall_mem_cons.mp h.files
  obtain ⟨hfirst, hapart⟩ := List.pairwise_cons.mp h.apart
  obtain ⟨mode, contents, hfind⟩ := hp
  refine ⟨fun q hq => ?_, (List.forall_mem_cons.mp h.byFiles).2, hapart⟩
  obtain ⟨mode', contents', hfind'⟩ := hfiles q hq
  have hasunder := asunder_of_files hfind hfind' (hfirst q hq)
  refine ⟨mode', contents', ?_⟩
  rw [← outline_eq_file, outline_alter hasunder.1, outline_eq_file, hfind']

/-- Where no file is replaced, all looks as before. -/
theorem look (h : Patching t patches) (hplace : ∀ p ∈ patches, p.1 ≠ place) :
    (t.settle patches).look place = t.look place := by
  induction patches generalizing t with
  | nil => rfl
  | cons p patches ih =>
    obtain ⟨hp, hrest⟩ := List.forall_mem_cons.mp hplace
    obtain ⟨mode, contents, hfind⟩ := (List.forall_mem_cons.mp h.files).1
    obtain ⟨mode', contents', hnode⟩ := (List.forall_mem_cons.mp h.byFiles).1
    calc ((t.alter (some p.2) p.1).settle patches).look place
        = (t.alter (some p.2) p.1).look place := ih h.tail hrest
      _ = t.look place := by rw [hnode, look_alter hfind, if_neg (Ne.symm hp)]

theorem outline (h : Patching t patches) (hplace : ∀ p ∈ patches, p.1 ≠ place) :
    (t.settle patches).outline place = t.outline place := by
  rw [Node.outline, h.look hplace, ← Node.outline]

theorem drop (h : Patching t (front ++ back)) : Patching (t.settle front) back := by
  induction front generalizing t with
  | nil => exact h
  | cons p front ih => exact ih h.tail

/-- Another file can be replaced before or after some files are. -/
theorem settle_alter (h : Patching t patches) {mode : Nat} {contents : ByteArray}
    (hfind : t.find? l = some (file mode contents)) (hne : ∀ p ∈ patches, p.1 ≠ l) (new : Node) :
    (t.alter (some new) l).settle patches = (t.settle patches).alter (some new) l := by
  induction patches generalizing t with
  | nil => rfl
  | cons p patches ih =>
    obtain ⟨hp, hrest⟩ := List.forall_mem_cons.mp hne
    obtain ⟨mode', contents', hfirst⟩ := (List.forall_mem_cons.mp h.files).1
    have hasunder := asunder_of_files hfirst hfind hp
    have hcomm : (t.alter (some new) l).alter (some p.2) p.1 =
        (t.alter (some p.2) p.1).alter (some new) l :=
      alter_comm hasunder (by simp [hfirst]) (some new)
    have hfind' : (t.alter (some p.2) p.1).find? l = some (file mode contents) := by
      rw [← outline_eq_file, outline_alter hasunder.1, outline_eq_file, hfind]
    calc (t.alter (some new) l).settle (p :: patches)
        = ((t.alter (some p.2) p.1).alter (some new) l).settle patches := by
          rw [← hcomm]
          rfl
      _ = ((t.alter (some p.2) p.1).settle patches).alter (some new) l := ih h.tail hfind' hrest

section Middle

variable (h : Patching t (front ++ p :: back))

include h

theorem ne_of_mem {q : Location × Node} (hq : q ∈ front ++ back) : q.1 ≠ p.1 := by
  obtain ⟨-, hback, hfront⟩ := List.pairwise_append.mp h.apart
  rcases List.mem_append.mp hq with hq | hq
  · exact hfront q hq p List.mem_cons_self
  · exact Ne.symm ((List.pairwise_cons.mp hback).1 q hq)

theorem without : Patching t (front ++ back) := by
  have hsub : List.Sublist (front ++ back) (front ++ p :: back) :=
    (List.sublist_cons_self p back).append_left front
  exact ⟨fun q hq => h.files q (hsub.subset hq), fun q hq => h.byFiles q (hsub.subset hq),
    h.apart.sublist hsub⟩

/-- One file can be replaced last. -/
theorem settle_middle :
    t.settle (front ++ p :: back) = (t.settle (front ++ back)).alter (some p.2) p.1 := by
  obtain ⟨mode, contents, hfind⟩ := h.drop.files p List.mem_cons_self
  have hback : Patching (t.settle front) back := h.without.drop
  have hlast := hback.settle_alter hfind
    (fun q hq => h.ne_of_mem (List.mem_append_right front hq)) p.2
  simpa [settle, List.foldl_append] using hlast

theorem file_without :
    ∃ mode contents, (t.settle (front ++ back)).find? p.1 = some (file mode contents) := by
  obtain ⟨mode, contents, hfind⟩ := h.files p (by simp)
  refine ⟨mode, contents, ?_⟩
  rw [← outline_eq_file, h.without.outline fun q hq => h.ne_of_mem hq, outline_eq_file, hfind]

theorem find?_settle : (t.settle (front ++ p :: back)).find? p.1 = some p.2 := by
  obtain ⟨mode, contents, hfind⟩ := h.file_without
  rw [h.settle_middle, find?_alter_self hfind]

/-- A file that was replaced can be replaced again. -/
theorem alter_settle {mode : Nat} {contents : ByteArray} :
    (t.settle (front ++ p :: back)).alter (some (file mode contents)) p.1 =
      t.settle (front ++ (p.1, file mode contents) :: back) := by
  have h' : Patching t (front ++ (p.1, file mode contents) :: back) := by
    refine ⟨fun q hq => ?_, fun q hq => ?_, ?_⟩
    · rcases List.mem_append.mp hq with hq | hq
      · exact h.files q (by simp [hq])
      · rcases List.mem_cons.mp hq with rfl | hq
        · exact h.files p (by simp)
        · exact h.files q (by simp [hq])
    · rcases List.mem_append.mp hq with hq | hq
      · exact h.byFiles q (by simp [hq])
      · rcases List.mem_cons.mp hq with rfl | hq
        · exact ⟨mode, contents, rfl⟩
        · exact h.byFiles q (by simp [hq])
    · have hapart := h.apart
      rw [List.pairwise_append, List.pairwise_cons] at hapart ⊢
      simpa using hapart
  obtain ⟨mode', contents', hfind⟩ := h.file_without
  rw [h.settle_middle, h'.settle_middle, alter_alter hfind]

end Middle

end Patching

theorem settle_eq_self {patches : List (Location × Node)}
    (h : ∀ p ∈ patches, t.find? p.1 = some p.2) : t.settle patches = t := by
  induction patches with
  | nil => rfl
  | cons p patches ih =>
    obtain ⟨hp, hrest⟩ := List.forall_mem_cons.mp h
    calc t.settle (p :: patches) = (t.alter (some p.2) p.1).settle patches := rfl
      _ = t := by rw [alter_eq_self hp, ih hrest]

end Node

end Uncomment
