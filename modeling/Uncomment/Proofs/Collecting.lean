/-
# The files that a target stands for

A folder stands for the regular files below it that are reached through folders alone, lie in no
folder that is left alone and have one of the extensions; a link is not followed and not listed.
Only the folders strictly between the target and the file are asked for their names, so the target
itself is never left alone, and neither a file nor a link hides anything because of its name. The
paths come in strictly increasing order, component by component. Anything else stands for itself,
and a target that cannot be looked up is missing or out of reach.

Key definitions: `Path.Before`, `Node.IsSource`. Main statements: `Path.pairwise_before_sort`,
`Node.mem_chosenIn_iff`, `collect_sources`.
-/
import Mathlib.Data.List.Lex
import Uncomment.Proofs.Footprint

open Uncomment.Path (IsName join joinAll)

namespace Uncomment

/-! ### The order of paths -/

namespace Path

/-- Whether a component comes before another one. -/
def Component.Precedes (c d : Component) : Prop := c.lt d = true

/-- Whether a path comes before another one: the first component that differs decides. -/
def Before (p q : String) : Prop := List.Lex Component.Precedes (components p) (components q)

theorem Component.precedes_iff {c d : Component} :
    c.Precedes d ↔ c.rank < d.rank ∨ ∃ m n, c = name m ∧ d = name n ∧ m < n := by
  by_cases hnames : ∃ m n, c = name m ∧ d = name n
  · obtain ⟨m, n, rfl, rfl⟩ := hnames
    have hlt : (name m).Precedes (name n) ↔ m < n := decide_eq_true_iff
    rw [hlt]
    constructor
    · exact fun h => .inr ⟨m, n, rfl, rfl, h⟩
    · rintro (h | ⟨m, n, hm, hn, h⟩)
      · exact absurd h (Nat.lt_irrefl _)
      · cases hm
        cases hn
        exact h
  · have hlt : c.lt d = decide (c.rank < d.rank) := by
      cases c <;> cases d <;> first | rfl | exact absurd ⟨_, _, rfl, rfl⟩ hnames
    rw [Precedes, hlt, decide_eq_true_eq]
    constructor
    · exact .inl
    · rintro (h | ⟨m, n, hm, hn, -⟩)
      · exact h
      · exact absurd ⟨m, n, hm, hn⟩ hnames

theorem Component.Precedes.trans {c d e : Component} (h : c.Precedes d) (h' : d.Precedes e) :
    c.Precedes e := by
  rw [precedes_iff] at h h' ⊢
  rcases h with h | ⟨m, n, rfl, rfl, h⟩
  · rcases h' with h' | ⟨m', n', rfl, rfl, -⟩
    · exact .inl (Nat.lt_trans h h')
    · exact .inl h
  · rcases h' with h' | ⟨m', n', hm, rfl, h'⟩
    · exact .inl h'
    · cases hm
      exact .inr ⟨m, n', rfl, rfl, String.lt_trans h h'⟩

theorem Component.not_precedes_self (c : Component) : ¬ c.Precedes c := by
  rw [precedes_iff]
  rintro (h | ⟨m, n, rfl, hn, h⟩)
  · exact Nat.lt_irrefl _ h
  · cases hn
    exact String.lt_irrefl _ h

instance : Std.Asymm Component.Precedes where
  asymm c _ h h' := c.not_precedes_self (h.trans h')

instance : Std.Trichotomous Component.Precedes where
  trichotomous c d h h' := by
    rw [Component.precedes_iff, not_or] at h h'
    have hrank : c.rank = d.rank := by omega
    by_cases hnames : ∃ m n, c = .name m ∧ d = .name n
    · obtain ⟨m, n, rfl, rfl⟩ := hnames
      have hle : n ≤ m := String.not_lt.mp fun hlt => h.2 ⟨m, n, rfl, rfl, hlt⟩
      have hle' : m ≤ n := String.not_lt.mp fun hlt => h'.2 ⟨n, m, rfl, rfl, hlt⟩
      rw [String.le_antisymm hle' hle]
    · cases c <;> cases d <;>
        first
        | rfl
        | exact absurd ⟨_, _, rfl, rfl⟩ hnames
        | simp [Component.rank] at hrank

theorem componentsLe_iff {cs ds : List Component} :
    componentsLe cs ds = true ↔ List.Lex Component.Precedes cs ds ∨ cs = ds := by
  induction cs generalizing ds with
  | nil =>
    cases ds with
    | nil => simp [componentsLe]
    | cons d ds => simp [componentsLe]
  | cons c cs ih =>
    cases ds with
    | nil => simp [componentsLe]
    | cons d ds =>
      rw [componentsLe, Bool.or_eq_true, Bool.and_eq_true, decide_eq_true_eq, ih]
      constructor
      · rintro (hlt | ⟨rfl, hlex | rfl⟩)
        · exact .inl (.rel hlt)
        · exact .inl (.cons hlex)
        · exact .inr rfl
      · rintro (hlex | heq)
        · cases hlex with
          | rel hlt => exact .inl hlt
          | cons hlex => exact .inr ⟨rfl, .inl hlex⟩
        · obtain ⟨rfl, rfl⟩ := List.cons.inj heq
          exact .inr ⟨rfl, .inr rfl⟩

theorem le_trans (p q r : String) (h : le p q = true) (h' : le q r = true) : le p r = true := by
  unfold le at *
  rw [componentsLe_iff] at *
  rcases h with h | h
  · rcases h' with h' | h'
    · exact .inl (List.lex_trans Component.Precedes.trans h h')
    · exact .inl (h' ▸ h)
  · rwa [h]

theorem le_total (p q : String) : (le p q || le q p) = true := by
  rw [Bool.or_eq_true, le, le, componentsLe_iff, componentsLe_iff]
  by_contra hnot
  rw [not_or, not_or, not_or] at hnot
  exact hnot.1.2 (Std.Trichotomous.trichotomous _ _ hnot.1.1 hnot.2.1)

theorem before_irrefl (p : String) : ¬ Before p p := by
  unfold Before
  exact fun h => Std.Asymm.asymm _ _ h h

/-- **Sorted paths come one before the other**, if no two of them have the same components. -/
theorem pairwise_before_sort {paths : List String}
    (h : paths.Pairwise fun p q => components p ≠ components q) :
    (sort paths).Pairwise Before := by
  have hle : (sort paths).Pairwise fun p q => le p q = true :=
    List.pairwise_mergeSort le_trans le_total paths
  have hne : (sort paths).Pairwise fun p q => components p ≠ components q :=
    ((List.mergeSort_perm paths le).pairwise_iff Ne.symm).mpr h
  refine hle.imp₂ ?_ hne
  intro p q hpq hdiff
  exact (componentsLe_iff.mp hpq).resolve_right hdiff

/-! ### The components of what lies below a folder -/

theorem componentsOf_names {names : List String} (h : ∀ n ∈ names, IsName n) :
    componentsOf names = names.map .name := by
  induction names with
  | nil => rfl
  | cons name names ih =>
    obtain ⟨hname, hnames⟩ := List.forall_mem_cons.mp h
    have hsplit := componentsOf_append [name] names
    rw [List.singleton_append] at hsplit
    rw [hsplit, componentsOf_singleton hname, ih hnames, List.map_cons, List.singleton_append]

/-- What the first of several pieces of a path adds to its components. -/
def start (piece : String) : List Component :=
  if piece = "" then [.root] else if piece = "." then [.here] else []

theorem components_of_pieces {path p : String} {ps : List String} (hp : pieces path = p :: ps)
    (hne : ps ≠ []) : components path = start p ++ componentsOf (p :: ps) := by
  obtain ⟨q, qs, rfl⟩ := List.exists_cons_of_ne_nil hne
  rw [components, hp, start]
  by_cases hroot : p = ""
  · subst hroot
    rfl
  · by_cases hhere : p = "."
    · subst hhere
      rfl
    · simp [hroot, hhere]

theorem stem_ne_nil (path : String) : stem path ≠ [] := by
  unfold stem
  split
  · next h =>
    obtain ⟨cs, hcs⟩ := List.getLast?_eq_some_iff.mp h
    rw [pieces_of_slash hcs, List.dropLast_concat, ne_eq, List.map_eq_nil_iff]
    exact Text.splitOn_ne_nil '/' cs
  · exact pieces_ne_nil path

/-- A path of names below a folder has the components of the folder and these names. -/
theorem exists_components_joinAll {folder : String} (hf : folder ≠ "") :
    ∃ front, ∀ names, names ≠ [] → (∀ n ∈ names, IsName n) →
      components (joinAll folder names) = front ++ names.map .name := by
  obtain ⟨p, ps, hstem⟩ := List.exists_cons_of_ne_nil (stem_ne_nil folder)
  refine ⟨start p ++ componentsOf (p :: ps), fun names hne hnames => ?_⟩
  have hpieces := pieces_joinAll hnames hne hf
  rw [hstem, List.cons_append] at hpieces
  rw [components_of_pieces hpieces (List.append_ne_nil_of_right_ne_nil ps hne), ← List.cons_append,
    componentsOf_append, componentsOf_names hnames, List.append_assoc]

/-- Different names lead to paths with different components. -/
theorem components_joinAll_ne {folder : String} (hf : folder ≠ "") {names names' : List String}
    (hne : names ≠ []) (hne' : names' ≠ []) (h : ∀ n ∈ names, IsName n)
    (h' : ∀ n ∈ names', IsName n) (hdiff : names ≠ names') :
    components (joinAll folder names) ≠ components (joinAll folder names') := by
  obtain ⟨front, hfront⟩ := exists_components_joinAll hf
  rw [hfront names hne h, hfront names' hne' h']
  intro heq
  have hinj : Function.Injective Component.name := fun _ _ => Component.name.inj
  exact hdiff (List.map_injective_iff.mpr hinj (List.append_cancel_left heq))

end Path

/-! ### The files to process below a folder -/

namespace Node

variable {t : Node} {o : Options} {top names : Location} {entries : List (String × Node)}

/-- Whether the names lead from the folder at `top` to a file to process: through folders alone,
none of which is left alone, to a regular file with one of the extensions. -/
structure IsSource (o : Options) (t : Node) (top names : Location) : Prop where
  file : ∃ mode contents, t.find? (top ++ names) = some (.file mode contents)
  unskipped : ∀ n ∈ names.dropLast, n ∉ o.skipDirs
  extension : ∃ name ext, names.getLast? = some name ∧
    Path.nameExtension? name.toList = some ext ∧
      String.ofList ('.' :: Text.lower ext) ∈ o.extensions

theorem kindAt_eq_file :
    t.kindAt names = some .file ↔ ∃ mode contents, t.find? names = some (.file mode contents) := by
  unfold kindAt look
  cases t.find? names with
  | none => simp
  | some node => cases node <;> simp [sight, Sight.kind]

theorem matchesExtension_eq_true {name : String} (hn : IsName name) :
    o.matchesExtension name = true ↔ ∃ ext, Path.nameExtension? name.toList = some ext ∧
      String.ofList ('.' :: Text.lower ext) ∈ o.extensions := by
  have hname : Path.pieces name = [] ++ [name] := by
    rw [Path.pieces, Text.splitOn_of_notMem hn.no_slash]
    simp
  unfold Options.matchesExtension
  rw [Path.extension?_of_pieces hname hn]
  cases Path.nameExtension? name.toList with
  | none => simp
  | some ext => simp

/-- **The files to process are chosen.** The way to a file leads through the entry of its first
name, which is the file itself or a folder that is not left alone. -/
theorem mem_chosenIn (h : EntriesWellFormed entries)
    (hfile : ∃ mode contents, (folder entries).find? names = some (.file mode contents))
    (hskip : ∀ n ∈ names.dropLast, o.skips n = false)
    (hext : ∀ n, names.getLast? = some n → o.matchesExtension n = true) :
    names ∈ chosenIn o entries := by
  induction names generalizing entries with
  | nil =>
    obtain ⟨mode, contents, hfind⟩ := hfile
    rw [find?_nil] at hfind
    cases hfind
  | cons name names ih =>
    obtain ⟨mode, contents, hfind⟩ := hfile
    rw [find?_folder_cons] at hfind
    obtain ⟨node, hchild, hrest⟩ := Option.bind_eq_some_iff.mp hfind
    have hnode := (h.of_child? hchild).2
    rw [chosenIn_eq_flatMap]
    refine List.mem_flatMap.mpr ⟨(name, node), mem_of_child? hchild, ?_⟩
    cases names with
    | nil =>
      rw [find?_nil] at hrest
      cases hrest
      rw [chosen, if_pos (hext name rfl)]
      exact List.mem_singleton_self _
    | cons second names =>
      obtain ⟨inner, next, rfl, -, -⟩ := exists_child?_of_find? hrest
      rw [WellFormed] at hnode
      rw [List.dropLast_cons_cons, List.forall_mem_cons] at hskip
      rw [chosen, hskip.1, if_neg Bool.false_ne_true]
      refine List.mem_map_of_mem (ih hnode.2 ⟨mode, contents, hrest⟩ hskip.2 fun n hn => ?_)
      exact hext n (by rw [List.getLast?_cons_cons, hn])

/-- What is found in a well-formed tree is found by names. -/
theorem WellFormed.isName_of_find? (h : t.WellFormed) {node : Node}
    (hfind : t.find? names = some node) : ∀ n ∈ names, IsName n := by
  induction names generalizing t with
  | nil => simp
  | cons name names ih =>
    obtain ⟨entries, next, rfl, hnext, hfound⟩ := exists_child?_of_find? hfind
    rw [WellFormed] at h
    obtain ⟨hname, hwf⟩ := h.2.of_child? hnext
    exact List.forall_mem_cons.mpr ⟨hname, ih hwf hfound⟩

section Sources

variable (h : t.WellFormed) {target : String}
  (htarget : t.resolve target = .ok (top, folder entries))

include h htarget

theorem entries_of_resolve : (entries.map (·.1)).Nodup ∧ EntriesWellFormed entries := by
  have hfolder := h.find? (resolve_eq_ok.mp htarget).2
  rwa [WellFormed] at hfolder

/-- **What is chosen below a folder is what is to be processed there.** -/
theorem mem_chosenIn_iff : names ∈ chosenIn o entries ↔ IsSource o t top names := by
  obtain ⟨hnodup, hentries⟩ := entries_of_resolve h htarget
  have hplace : t.find? (top ++ names) = (folder entries).find? names := by
    rw [find?_append, (resolve_eq_ok.mp htarget).2, Option.bind_some]
  constructor
  · intro hnames
    obtain ⟨hchosen, hne⟩ := of_mem_chosenIn o hnodup hentries hnames
    refine ⟨?_, fun n hn hskip => ?_, ?_⟩
    · rw [hplace]
      exact kindAt_eq_file.mp hchosen.kindAt
    · have hspared := hchosen.unskipped n hn
      rw [Options.skips, List.contains_iff_mem.mpr hskip] at hspared
      cases hspared
    · have hlast := List.getLast?_eq_some_getLast hne
      have hname := hchosen.isName _ (List.getLast_mem hne)
      obtain ⟨ext, hext, hmem⟩ :=
        (matchesExtension_eq_true hname).mp (hchosen.hasExtension _ hlast)
      exact ⟨_, ext, hlast, hext, hmem⟩
  · rintro ⟨⟨mode, contents, hfile⟩, hskip, name, ext, hlast, hext, hmem⟩
    have hname : IsName name :=
      h.isName_of_find? hfile _ (List.mem_append_right top (List.mem_of_getLast? hlast))
    rw [hplace] at hfile
    refine mem_chosenIn hentries ⟨mode, contents, hfile⟩ (fun n hn => ?_) fun n hn => ?_
    · rw [Options.skips, ← Bool.not_eq_true, List.contains_iff_mem]
      exact hskip n hn
    · rw [hlast] at hn
      cases hn
      exact (matchesExtension_eq_true hname).mpr ⟨ext, hext, hmem⟩

/-- The paths of the files to process below a folder come one before the other. -/
theorem pairwise_before_sources :
    (Path.sort (Listing.entrySources o target (entryListings entries))).Pairwise Path.Before := by
  obtain ⟨hnodup, hentries⟩ := entries_of_resolve h htarget
  refine Path.pairwise_before_sort ?_
  rw [entrySources_eq o h htarget, List.pairwise_map]
  refine (nodup_chosenIn o entries hnodup hentries).imp_of_mem ?_
  intro names names' hnames hnames' hdiff
  obtain ⟨hchosen, hne⟩ := of_mem_chosenIn o hnodup hentries hnames
  obtain ⟨hchosen', hne'⟩ := of_mem_chosenIn o hnodup hentries hnames'
  exact Path.components_joinAll_ne (ne_empty_of_locate (resolve_eq_ok.mp htarget).1) hne hne'
    hchosen.isName hchosen'.isName hdiff

theorem mem_sources {path : String} :
    path ∈ Path.sort (Listing.entrySources o target (entryListings entries)) ↔
      ∃ names, path = joinAll target names ∧ IsSource o t top names := by
  rw [Path.sort, List.mem_mergeSort, entrySources_eq o h htarget, List.mem_map]
  constructor
  · rintro ⟨names, hnames, rfl⟩
    exact ⟨names, rfl, (mem_chosenIn_iff h htarget).mp hnames⟩
  · rintro ⟨names, rfl, hsource⟩
    exact ⟨names, (mem_chosenIn_iff h htarget).mpr hsource, rfl⟩

end Sources

end Node

/-! ### What a target stands for -/

theorem World.gives_collect (w : World) (o : Options) (target : String) :
    w.gives (collect o target) = w.collects o target := by
  obtain ⟨w', -, hrun⟩ := w.collect_run o target
  rw [gives, hrun]

/-- **The files that a target stands for.** A folder stands for exactly the files to process below
it, in strictly increasing order, and anything else for itself. A target that cannot be looked up is
missing if there is no such entry, and out of reach otherwise. -/
theorem collect_sources (w : World) (o : Options) (target : String) (hwf : w.tree.WellFormed) :
    (∀ top entries, w.surveys target = .ok (top, .folder entries) →
      ∃ files, w.gives (collect o target) = .ok files ∧ files.Pairwise Path.Before ∧
        files.Nodup ∧
        ∀ path, path ∈ files ↔
          ∃ names, path = joinAll target names ∧ Node.IsSource o w.tree top names) ∧
    (∀ top node, w.surveys target = .ok (top, node) → (∀ entries, node ≠ .folder entries) →
      w.gives (collect o target) = .ok [target]) ∧
    ∀ e, w.surveys target = .error e →
      w.gives (collect o target) =
        .error (if e = .noEntry then .notFound target else .access target e) := by
  rw [w.gives_collect]
  refine ⟨fun top entries hsurvey => ?_, fun top node hsurvey hnode => ?_, fun e hsurvey => ?_⟩
  · have htarget := World.resolve_of_surveys hsurvey
    have hbefore := Node.pairwise_before_sources (o := o) hwf htarget
    refine ⟨_, by rw [World.collects, hsurvey], hbefore, hbefore.imp ?_, fun path => ?_⟩
    · rintro p q hpq rfl
      exact Path.before_irrefl p hpq
    · exact Node.mem_sources hwf htarget
  · rw [World.collects, hsurvey]
    cases node with
    | folder entries => exact absurd rfl (hnode entries)
    | _ => rfl
  · rw [World.collects, hsurvey]
    cases e <;> rfl

/-! ### A folder that is called like those to leave alone -/

namespace Node

/-- A folder with two files, with a link that has the name of the folder itself and with another
folder of that name. -/
def builtTree : Node :=
  .folder [("build", .folder [("a-b.js", .file 0o644 "1".toUTF8),
    ("a", .folder [("b.JS", .file 0o644 "2".toUTF8), ("build", .link "..")]),
    ("c", .folder [("build", .folder [("d.js", .file 0o644 "3".toUTF8)])])])]

theorem wellFormed_builtTree : builtTree.WellFormed := by
  have hname (name : String) (h : name ≠ "" ∧ name ≠ "." ∧ name ≠ ".." ∧ '/' ∉ name.toList) :
      Path.IsName name := ⟨h.1, h.2.1, h.2.2.1, h.2.2.2⟩
  have hbuild := hname "build" (by decide)
  have hab := hname "a-b.js" (by decide)
  have ha := hname "a" (by decide)
  have hb := hname "b.JS" (by decide)
  have hc := hname "c" (by decide)
  have hd := hname "d.js" (by decide)
  simp [builtTree, WellFormed, EntriesWellFormed, hbuild, hab, ha, hb, hc, hd]

theorem resolve_build : ∃ entries, builtTree.resolve "build" = .ok (["build"], folder entries) := by
  have hpieces : Path.pieces "build" = ["build"] := by decide
  have hstep : builtTree.advance maxLinks [] "build" = .ok (maxLinks, ["build"], []) := rfl
  refine ⟨_, resolve_eq_ok.mpr ⟨?_, rfl⟩⟩
  rw [locate, if_neg (by decide), if_neg (by decide), if_neg (by simp), hpieces, follow_cons, hstep]
  simp only [List.nil_append]
  rw [follow]

end Node

/-- The folder is walked although its name is one to leave alone, and the link hides nothing. -/
theorem collect_sources_builtTree :
    let w : World := { tree := .builtTree }
    let o : Options := { extensions := [".js"], skipDirs := ["build"] }
    ∃ files, w.gives (collect o "build") = .ok files ∧ files.Pairwise Path.Before ∧
      "build/a/b.JS" ∈ files ∧ "build/a-b.js" ∈ files := by
  intro w o
  obtain ⟨entries, hbuild⟩ := Node.resolve_build
  obtain ⟨files, hgives, hbefore, -, hfiles⟩ :=
    (collect_sources w o "build" Node.wellFormed_builtTree).1 ["build"] entries hbuild
  refine ⟨files, hgives, hbefore, (hfiles _).mpr ⟨["a", "b.JS"], by decide +kernel, ?_⟩,
    (hfiles _).mpr ⟨["a-b.js"], by decide +kernel, ?_⟩⟩
  · exact ⟨⟨_, _, rfl⟩, by decide, "b.JS", ['J', 'S'], rfl, by decide, by decide +kernel⟩
  · exact ⟨⟨_, _, rfl⟩, by decide, "a-b.js", ['j', 's'], rfl, by decide, by decide +kernel⟩

end Uncomment
