/-
# The files below a folder

In a well-formed tree the files to process below a folder are given by the names that lead to
them: each list of names occurs once, leads through folders that are not left alone, and ends at a
file with one of the extensions. The paths made of them lead to those very files, whatever links
there are, and so to different ones.

Key definitions: `Node.chosenIn`, `Node.Chosen`. Main statements: `Node.of_mem_chosenIn`,
`Node.locate_joinAll`, `Node.apart_sources`, `World.locate_absolute`.
-/
import Uncomment.Proofs.Batches
import Uncomment.Proofs.WellFormed

open Uncomment.Path (IsName join joinAll stem)

namespace Uncomment

namespace Node

variable {t node : Node} {location : Location} {name : String} {entries : List (String × Node)}

/-! ### The names that lead to the files to process -/

mutual

/-- The names that lead to the files to process at or below an entry of a folder. -/
def chosen (o : Options) (name : String) : Node → List Location
  | file _ _ => if o.matchesExtension name then [[name]] else []
  | link _ => []
  | folder entries => if o.skips name then [] else (chosenIn o entries).map (name :: ·)

/-- The names that lead to the files to process below a folder. -/
def chosenIn (o : Options) : List (String × Node) → List Location
  | [] => []
  | (name, node) :: entries => chosen o name node ++ chosenIn o entries

end

/-- The extension of a path is that of the name at its end. -/
theorem matchesExtension_join (o : Options) {folder : String} (hf : folder ≠ "")
    (hn : IsName name) : o.matchesExtension (join folder name) = o.matchesExtension name := by
  have hname : Path.pieces name = [] ++ [name] := by
    rw [Path.pieces, Text.splitOn_of_notMem hn.no_slash]
    simp
  unfold Options.matchesExtension
  rw [Path.extension?_of_pieces (Path.pieces_join hf hn.no_slash) hn,
    Path.extension?_of_pieces hname hn]

mutual

theorem sources_listing (o : Options) (node : Node) {folder name : String} (hf : folder ≠ "")
    (hn : IsName name) (h : node.WellFormed) :
    (if node.listing.isFolder && o.skips name then []
      else node.listing.sources o (join folder name)) =
        (node.chosen o name).map (joinAll folder) := by
  cases node with
  | file mode contents =>
    have hfile : (Listing.file.isFolder && o.skips name) = false := rfl
    rw [listing, chosen, Listing.sources, matchesExtension_join o hf hn, hfile, if_neg (by decide)]
    split <;> rfl
  | link target => rfl
  | folder entries =>
    rw [WellFormed] at h
    rw [listing, chosen, Listing.sources, Listing.isFolder, Bool.true_and,
      entrySources_listings o entries (Path.join_ne_empty hf name) h.2]
    split
    · rfl
    · rw [List.map_map]
      rfl

/-- The files to process below a folder are those that the chosen names lead to. -/
theorem entrySources_listings (o : Options) (entries : List (String × Node)) {folder : String}
    (hf : folder ≠ "") (h : EntriesWellFormed entries) :
    Listing.entrySources o folder (entryListings entries) =
      (chosenIn o entries).map (joinAll folder) := by
  cases entries with
  | nil => rfl
  | cons entry entries =>
    obtain ⟨name, node⟩ := entry
    rw [EntriesWellFormed] at h
    rw [entryListings, Listing.entrySources, chosenIn, List.map_append,
      sources_listing o node hf h.1 h.2.1, entrySources_listings o entries hf h.2.2]

end

/-- A file is chosen if it lies in folders that are not left alone and has an extension that is
asked for. -/
structure Chosen (o : Options) (t : Node) (names : Location) : Prop where
  kindAt : t.kindAt names = some .file
  isName : ∀ n ∈ names, IsName n
  unskipped : ∀ n ∈ names.dropLast, o.skips n = false
  hasExtension : ∀ n, names.getLast? = some n → o.matchesExtension n = true

theorem chosenIn_eq_flatMap (o : Options) (entries : List (String × Node)) :
    chosenIn o entries = entries.flatMap fun entry => entry.2.chosen o entry.1 := by
  induction entries with
  | nil => rfl
  | cons entry entries ih => rw [chosenIn, ih, List.flatMap_cons]

theorem child?_of_mem (hnodup : (entries.map (·.1)).Nodup) (h : (name, node) ∈ entries) :
    child? name entries = some node := by
  induction entries with
  | nil => cases h
  | cons entry entries ih =>
    obtain ⟨k, first⟩ := entry
    rw [List.map_cons, List.nodup_cons] at hnodup
    rw [child?_cons]
    rcases List.mem_cons.mp h with heq | h
    · cases heq
      exact if_pos rfl
    · have hmem : name ∈ entries.map (·.1) := List.mem_map.mpr ⟨_, h, rfl⟩
      rw [if_neg (fun heq : name = k => hnodup.1 (heq ▸ hmem)), ih hnodup.2 h]

theorem head_of_mem_chosen {o : Options} {names : Location} (h : names ∈ node.chosen o name) :
    ∃ below, names = name :: below := by
  cases node with
  | file mode contents =>
    rw [chosen] at h
    split at h
    · exact ⟨[], List.mem_singleton.mp h⟩
    · cases h
  | link target => cases h
  | folder entries =>
    rw [chosen] at h
    split at h
    · cases h
    · obtain ⟨below, -, heq⟩ := List.mem_map.mp h
      exact ⟨below, heq.symm⟩

theorem head_of_mem_chosenIn {o : Options} {names : Location} (h : names ∈ chosenIn o entries) :
    ∃ name ∈ entries.map (·.1), ∃ below, names = name :: below := by
  rw [chosenIn_eq_flatMap] at h
  obtain ⟨entry, hentry, hchosen⟩ := List.mem_flatMap.mp h
  exact ⟨entry.1, List.mem_map_of_mem hentry, head_of_mem_chosen hchosen⟩

/-- **The names that are chosen lead to files that are.** -/
theorem of_mem_chosenIn (o : Options) {names : Location} (hnodup : (entries.map (·.1)).Nodup)
    (h : EntriesWellFormed entries) (hnames : names ∈ chosenIn o entries) :
    Chosen o (folder entries) names ∧ names ≠ [] := by
  induction names generalizing entries with
  | nil =>
    obtain ⟨name, -, below, heq⟩ := head_of_mem_chosenIn hnames
    cases heq
  | cons name below ih =>
    rw [chosenIn_eq_flatMap] at hnames
    obtain ⟨⟨k, node⟩, hmem, hchosen⟩ := List.mem_flatMap.mp hnames
    have hchild := child?_of_mem hnodup hmem
    obtain ⟨hk, hnode⟩ := h.of_child? hchild
    cases node with
    | file mode contents =>
      rw [chosen] at hchosen
      split at hchosen
      · next hext =>
        cases List.mem_singleton.mp hchosen
        refine ⟨⟨?_, ?_, ?_, ?_⟩, by simp⟩
        · simp [kindAt, look, hchild, sight, Sight.kind]
        · simpa using hk
        · simp
        · rintro n hn
          cases hn
          exact hext
      · cases hchosen
    | link target => cases hchosen
    | folder inner =>
      rw [chosen] at hchosen
      split at hchosen
      · cases hchosen
      · next hskips =>
        obtain ⟨names, hbelow, heq⟩ := List.mem_map.mp hchosen
        cases heq
        rw [WellFormed] at hnode
        obtain ⟨hchosen, hne⟩ := ih hnode.1 hnode.2 hbelow
        obtain ⟨second, names, rfl⟩ := List.exists_cons_of_ne_nil hne
        refine ⟨⟨?_, ?_, ?_, ?_⟩, by simp⟩
        · rw [← hchosen.kindAt, kindAt, kindAt, look, look, find?_folder_cons, hchild]
          rfl
        · exact List.forall_mem_cons.mpr ⟨hk, hchosen.isName⟩
        · rw [List.dropLast_cons_cons]
          exact List.forall_mem_cons.mpr ⟨by simpa using hskips, hchosen.unskipped⟩
        · intro n hn
          exact hchosen.hasExtension n (by simpa [List.getLast?_cons_cons] using hn)

mutual

theorem nodup_chosen (o : Options) (node : Node) (name : String) (h : node.WellFormed) :
    (node.chosen o name).Nodup := by
  cases node with
  | file mode contents =>
    rw [chosen]
    split <;> simp
  | link target => exact List.nodup_nil
  | folder entries =>
    rw [WellFormed] at h
    rw [chosen]
    split
    · exact List.nodup_nil
    · refine List.Pairwise.map (name :: ·) ?_ (nodup_chosenIn o entries h.1 h.2)
      intro names names' hne heq
      exact hne (List.cons.inj heq).2

/-- No file is chosen twice. -/
theorem nodup_chosenIn (o : Options) (entries : List (String × Node))
    (hnodup : (entries.map (·.1)).Nodup) (h : EntriesWellFormed entries) :
    (chosenIn o entries).Nodup := by
  cases entries with
  | nil => exact List.nodup_nil
  | cons entry entries =>
    obtain ⟨name, node⟩ := entry
    rw [List.map_cons, List.nodup_cons] at hnodup
    rw [EntriesWellFormed] at h
    rw [chosenIn]
    refine List.nodup_append.mpr ⟨nodup_chosen o node name h.2.1,
      nodup_chosenIn o entries hnodup.2 h.2.2, ?_⟩
    intro names hnames names' hnames' heq
    obtain ⟨below, rfl⟩ := head_of_mem_chosen hnames
    obtain ⟨other, hother, below', rfl⟩ := head_of_mem_chosenIn hnames'
    exact hnodup.1 ((List.cons.inj heq).1 ▸ hother)

end

/-! ### Where the paths of chosen files lead -/

/-- A path is followed to its end part by part. -/
theorem follow_append (t : Node) (links : Nat) (here : Location) (front back : List String) :
    (∃ e, t.follow false links here front = .error e ∧
      t.follow false links here (front ++ back) = .error e) ∨
    ∃ links' middle, t.follow false links here front = .ok middle ∧
      t.follow false links here (front ++ back) = t.follow false links' middle back := by
  induction links, here, front using follow_induction t with
  | stop links here => exact Or.inr ⟨links, here, by rw [follow], rfl⟩
  | fails links here piece rest e hstep =>
    rw [List.cons_append, follow_cons, follow_cons, hstep]
    exact Or.inl ⟨e, rfl, rfl⟩
  | step links here piece rest links' there more hstep ih =>
    rw [List.cons_append, follow_cons, follow_cons, hstep]
    rwa [List.append_assoc] at ih

/-- The way to a place leads through folders. -/
theorem kindAt_of_append {front back : Location} {kind : Kind} (hback : back ≠ [])
    (h : t.kindAt (front ++ back) = some kind) : t.kindAt front = some .folder := by
  obtain ⟨name, names, rfl⟩ := List.exists_cons_of_ne_nil hback
  rw [kindAt, look, find?_append] at h
  cases hfront : t.find? front with
  | none => simp [hfront] at h
  | some node =>
    rw [hfront, Option.bind_some] at h
    cases hfind : node.find? (name :: names) with
    | none => simp [hfind] at h
    | some found =>
      obtain ⟨entries, next, rfl, -⟩ := exists_child?_of_find? hfind
      rw [kindAt, look, hfront]
      rfl

/-- A step to a file or a folder goes down by its name, unless the name is too long. -/
theorem advance_name {links : Nat} {here : Location} {name : String} (hname : IsName name)
    (hkind : t.kindAt (here ++ [name]) = some .file ∨ t.kindAt (here ++ [name]) = some .folder) :
    t.advance links here name =
      if maxNameSize < name.utf8ByteSize then .error .nameTooLong
      else .ok (links, here ++ [name], []) := by
  have hhere : t.kindAt here = some .folder := by
    rcases hkind with hkind | hkind
    · exact kindAt_of_append (by simp) hkind
    · exact kindAt_of_append (by simp) hkind
  have hdot : ¬ (name = "" ∨ name = ".") := not_or.mpr ⟨hname.ne_empty, hname.ne_dot⟩
  rw [advance, hhere]
  simp only [hdot, hname.ne_dots, if_false]
  rcases hkind with hkind | hkind
  · rw [hkind]
  · rw [hkind]

/-- The first of some names that lead to a file leads to a file or a folder. -/
theorem kindAt_head {here names : Location} {name : String}
    (hfile : t.kindAt (here ++ [name] ++ names) = some .file) :
    t.kindAt (here ++ [name]) = some .file ∨ t.kindAt (here ++ [name]) = some .folder := by
  cases names with
  | nil => exact Or.inl (by simpa using hfile)
  | cons second names => exact Or.inr (kindAt_of_append (by simp) hfile)

/-- **Names that lead to a file through folders are followed to it**, unless one is too long. -/
theorem follow_names {links : Nat} {here names : Location} (hnames : ∀ n ∈ names, IsName n)
    (hfile : t.kindAt (here ++ names) = some .file) :
    t.follow false links here names =
      if ∀ n ∈ names, n.utf8ByteSize ≤ maxNameSize then .ok (here ++ names)
      else .error .nameTooLong := by
  induction names generalizing here with
  | nil => simp [follow]
  | cons name names ih =>
    obtain ⟨hname, hrest⟩ := List.forall_mem_cons.mp hnames
    rw [List.append_cons] at hfile
    rw [follow_cons, advance_name hname (kindAt_head hfile)]
    by_cases hlong : maxNameSize < name.utf8ByteSize
    · rw [if_pos hlong, if_neg fun hall => Nat.not_le.mpr hlong (hall name List.mem_cons_self)]
    · have hrun := ih hrest hfile
      rw [if_neg hlong, List.append_cons here name names]
      simpa [Nat.not_lt.mp hlong] using hrun

theorem ne_empty_of_locate {path : String} (h : t.locate path = .ok location) : path ≠ "" := by
  rintro rfl
  have herror : t.locate "" = .error .noEntry := by
    rw [locate, if_neg (by decide), if_neg (by decide), if_pos (by decide)]
  rw [herror] at h
  cases h

/-- A path leads where its stem leads. -/
theorem follow_stem {path : String} (h : t.locate path = .ok location) :
    t.follow false maxLinks [] (stem path) = .ok location := by
  have hfollow := follow_of_locate h
  rcases Path.pieces_eq_stem path with heq | heq
  · rwa [heq] at hfollow
  · rw [heq] at hfollow
    rcases follow_append t maxLinks [] (stem path) [""] with
      ⟨e, -, herror⟩ | ⟨links, middle, hstem, hrest⟩
    · rw [herror] at hfollow
      cases hfollow
    · -- the empty piece asks for a folder and stays there
      rw [hrest, follow_cons, advance] at hfollow
      cases hkind : t.kindAt middle with
      | none =>
        rw [hkind] at hfollow
        cases hfollow
      | some kind =>
        rw [hkind] at hfollow
        cases kind with
        | folder =>
          simp only [true_or, if_true, List.append_nil, follow] at hfollow
          rw [hstem, hfollow]
        | _ => cases hfollow

/-- **The path of a chosen file leads to it**, if it can be followed. -/
theorem locate_joinAll {target : String} (htarget : t.locate target = .ok location)
    {names place : Location} (hne : names ≠ []) (hnames : ∀ n ∈ names, IsName n)
    (hfile : t.kindAt (location ++ names) = some .file)
    (h : t.locate (joinAll target names) = .ok place) : place = location ++ names := by
  have hfollow := follow_of_locate h
  rw [Path.pieces_joinAll hnames hne (ne_empty_of_locate htarget)] at hfollow
  rcases follow_append t maxLinks [] (stem target) names with
    ⟨e, -, herror⟩ | ⟨links, middle, hstem, hrest⟩
  · rw [herror] at hfollow
    cases hfollow
  · rw [follow_stem htarget] at hstem
    cases hstem
    rw [hrest, follow_names hnames hfile] at hfollow
    split at hfollow
    · cases hfollow
      rfl
    · cases hfollow

/-! ### The files that a folder stands for -/

section Sources

variable (o : Options) {target : String} (h : t.WellFormed)
  (htarget : t.resolve target = .ok (location, folder entries))

include h htarget

theorem entrySources_eq :
    Listing.entrySources o target (entryListings entries) =
      (chosenIn o entries).map (joinAll target) := by
  obtain ⟨hlocate, hfind⟩ := resolve_eq_ok.mp htarget
  have hentries := h.find? hfind
  rw [WellFormed] at hentries
  exact entrySources_listings o entries (ne_empty_of_locate hlocate) hentries.2

theorem chosen_of_mem {names : Location} (hnames : names ∈ chosenIn o entries) :
    Chosen o (folder entries) names ∧
      ∀ place, t.locate (joinAll target names) = .ok place → place = location ++ names := by
  obtain ⟨hlocate, hfind⟩ := resolve_eq_ok.mp htarget
  have hentries := h.find? hfind
  rw [WellFormed] at hentries
  obtain ⟨hchosen, hne⟩ := of_mem_chosenIn o hentries.1 hentries.2 hnames
  have hfile : t.kindAt (location ++ names) = some .file := by
    rw [← hchosen.kindAt, kindAt, kindAt, look, look, find?_append, hfind, Option.bind_some]
  exact ⟨hchosen, fun place hplace => locate_joinAll hlocate hne hchosen.isName hfile hplace⟩

/-- The place of a file to process lies below the folder, in no folder that is left alone. -/
theorem place_of_mem_sources {path : String}
    (hpath : path ∈ Path.sort (Listing.entrySources o target (entryListings entries)))
    {place : Location} (hlocate : t.locate path = .ok place) :
    ∃ names, place = location ++ names ∧ Chosen o (folder entries) names := by
  rw [Path.sort, List.mem_mergeSort, entrySources_eq o h htarget] at hpath
  obtain ⟨names, hnames, rfl⟩ := List.mem_map.mp hpath
  obtain ⟨hchosen, hplace⟩ := chosen_of_mem o h htarget hnames
  exact ⟨names, hplace place hlocate, hchosen⟩

/-- **The files to process below a folder are different files.** -/
theorem apart_sources :
    t.Apart (Path.sort (Listing.entrySources o target (entryListings entries))) := by
  have hentries := h.find? (resolve_eq_ok.mp htarget).2
  rw [WellFormed] at hentries
  have hsymm {p q : String} (hpq : ∀ place, t.locate p = .ok place → t.locate q ≠ .ok place) :
      ∀ place, t.locate q = .ok place → t.locate p ≠ .ok place :=
    fun place hq hp => hpq place hp hq
  refine ((List.mergeSort_perm _ _).pairwise_iff hsymm).mpr ?_
  rw [entrySources_eq o h htarget, List.pairwise_map]
  refine (nodup_chosenIn o entries hentries.1 hentries.2).imp_of_mem ?_
  intro names names' hnames hnames' hne place hlocate hlocate'
  have hplace := (chosen_of_mem o h htarget hnames).2 place hlocate
  have hplace' := (chosen_of_mem o h htarget hnames').2 place hlocate'
  exact hne (List.append_cancel_left (hplace.symm.trans hplace'))

end Sources

end Node

/-- **The absolute path of a file leads to it**, unless something in it is too long. -/
theorem World.locate_absolute {w : World} {location : Location} (hname : w.name = "")
    (hne : location ≠ []) (hnames : ∀ n ∈ location, IsName n)
    (hfile : w.tree.kindAt location = some .file)
    (hnul : '\x00' ∉ (w.absolute location).toList)
    (hsize : (w.absolute location).utf8ByteSize < Node.maxPathSize)
    (hsizes : ∀ n ∈ location, n.utf8ByteSize ≤ Node.maxNameSize) :
    w.tree.locate (w.absolute location) = .ok location := by
  have habsolute : w.absolute location = joinAll "/" location := by
    rw [absolute, hname, String.empty_append]
    rfl
  have hpieces : Path.pieces (w.absolute location) = [""] ++ location := by
    rw [habsolute, Path.pieces_joinAll hnames hne (by decide)]
    rfl
  have hroot : w.tree.kindAt [] = some .folder := Node.kindAt_of_append hne hfile
  have hempty : (w.absolute location).isEmpty = false := by
    rw [Bool.eq_false_iff, ne_eq, String.isEmpty_iff]
    intro heq
    rw [heq] at hpieces
    exact hne (List.cons.inj hpieces).2.symm
  rw [Node.locate, if_neg (by simpa using hnul), if_neg (Nat.not_le.mpr hsize),
    if_neg (by simp [hempty]), hpieces, List.singleton_append, Node.follow_cons, Node.advance,
    hroot]
  simp only [true_or, if_true, List.nil_append]
  rw [Node.follow_names hnames hfile, if_pos hsizes, List.nil_append]

end Uncomment
