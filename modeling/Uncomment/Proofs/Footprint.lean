/-
# What a run changes

A run looks at its target, collects the files that it stands for and processes them. Whatever is
refused on the way, each file ends as it was or with its clean text and its access rights, and
only where the report says so. Nothing else changes: no link, no folder, no other file, and no
draft stays behind.

Key definitions: `World.collects`, `Options.Spares`. Main statement: `footprint`.
-/
import Uncomment.Proofs.Walk

namespace Uncomment

namespace World

/-- What is found where a target leads. -/
def surveys (w : World) (target : String) : Except IoError (Location × Node) :=
  match w.refuses (.survey target) with
  | some e => .error e
  | none => w.tree.resolve target

/-- The files that a target stands for. -/
def collects (w : World) (o : Options) (target : String) : Except Failure (List String) :=
  match w.surveys target with
  | .error .noEntry => .error (.notFound target)
  | .error e => .error (.access target e)
  | .ok (_, .folder entries) =>
    .ok (Path.sort (Listing.entrySources o target (Node.entryListings entries)))
  | .ok _ => .ok [target]

theorem survey_run (w : World) (wants : String → Bool) (target : String) :
    Host.survey (m := Session) wants target w =
      ((w.surveys target).map fun found => found.2.listing, w) := by
  change w.attempt (.survey target)
    ((w.tree.resolve target).map fun found => (found.2.listing, w)) = _
  unfold attempt surveys
  cases w.refuses (.survey target) with
  | some e => rfl
  | none => cases w.tree.resolve target <;> rfl

theorem collect_run (w : World) (o : Options) (target : String) :
    ∃ w', w.Alike w' ∧ collect (m := Session) o target w = (w.collects o target, w') := by
  unfold collect collects
  rw [bind_run (w.survey_run _ target)]
  cases w.surveys target with
  | error e => cases e <;> exact ⟨w, .refl w, rfl⟩
  | ok found =>
    obtain ⟨location, node⟩ := found
    cases node with
    | folder entries => exact ⟨_, (Alike.refl w).note _, rfl⟩
    | _ => exact ⟨w, .refl w, rfl⟩

theorem resolve_of_surveys {w : World} {target : String} {found : Location × Node}
    (h : w.surveys target = .ok found) : w.tree.resolve target = .ok found := by
  unfold surveys at h
  split at h
  · cases h
  · exact h

/-- A target stands for the files to process below it if it is a folder, or else for itself. -/
theorem collects_cases {w : World} {o : Options} {target : String} {paths : List String}
    (h : w.collects o target = .ok paths) :
    (∃ top entries, w.tree.resolve target = .ok (top, .folder entries) ∧
      paths = Path.sort (Listing.entrySources o target (Node.entryListings entries))) ∨
    (∀ top entries, w.tree.resolve target ≠ .ok (top, .folder entries)) ∧ paths = [target] := by
  unfold collects at h
  split at h
  · cases h
  · cases h
  · next top entries hsurvey =>
    cases h
    exact Or.inl ⟨top, entries, resolve_of_surveys hsurvey, rfl⟩
  · next found hfolder hsurvey =>
    cases h
    refine Or.inr ⟨fun top entries htarget => ?_, rfl⟩
    rw [resolve_of_surveys hsurvey] at htarget
    cases htarget
    exact hfolder top entries rfl

theorem collects_folder {w : World} {o : Options} {target : String} {paths : List String}
    (h : w.collects o target = .ok paths) {top : Location} {entries : List (String × Node)}
    (htarget : w.tree.resolve target = .ok (top, .folder entries)) :
    paths = Path.sort (Listing.entrySources o target (Node.entryListings entries)) := by
  rcases collects_cases h with ⟨top', entries', htarget', hpaths⟩ | ⟨hfile, -⟩
  · rw [htarget] at htarget'
    cases htarget'
    exact hpaths
  · exact absurd htarget (hfile top entries)

/-- A run fails before it touches a file, or processes the files that it collects. -/
theorem processPath_cases (w : World) (o : Options) (target : String) :
    (∃ failure, w.collects o target = .error failure ∧
      w.gives (processPath o target) = .error failure ∧ w.Alike (w.after (processPath o target))) ∨
    ∃ paths w', w.collects o target = .ok paths ∧ w.Alike w' ∧
      w.gives (processPath o target) = .ok ⟨w'.gives (processFiles o paths)⟩ ∧
      (w'.after (processFiles o paths)).Alike (w.after (processPath o target)) := by
  obtain ⟨w', hw, hrun⟩ := w.collect_run o target
  unfold gives after processPath
  rw [bind_run hrun]
  cases w.collects o target with
  | error failure => exact Or.inl ⟨failure, rfl, rfl, hw⟩
  | ok paths => exact Or.inr ⟨paths, w', rfl, hw, rfl, (Alike.refl _).note _⟩

/-- The reports of a run are on the files that it collects. -/
theorem collects_of_gives {w : World} {o : Options} {target : String} {b : Batch}
    (h : w.gives (processPath o target) = .ok b) :
    w.collects o target = .ok (b.files.map FileReport.path) := by
  rcases w.processPath_cases o target with
    ⟨failure, -, hgives, -⟩ | ⟨paths, w', hpaths, -, hgives, -⟩
  · rw [hgives] at h
    cases h
  · rw [hgives] at h
    cases h
    rw [hpaths, path_processFiles]

/-- **A run changes only the files that it reports to have changed**, whatever is refused. -/
theorem confined_processPath (w : World) (o : Options) (target : String) :
    w.Confined (w.after (processPath o target)) fun place =>
      ∃ b, w.gives (processPath o target) = .ok b ∧
        ∃ r ∈ b.files, r.Stored ∧ w.tree.locate r.path = .ok place := by
  rcases w.processPath_cases o target with ⟨failure, -, -, hw⟩ | ⟨paths, w', -, hw, hgives, hafter⟩
  · exact .of_alike hw
  · refine (Confined.of_alike hw).trans (((confined_processFiles o w' paths).mono ?_).trans
      (.of_alike hafter))
    rintro place ⟨r, hr, hstored, hlocate⟩
    rw [hw.tree] at hlocate
    exact ⟨_, hgives, r, hr, hstored, hlocate⟩

end World

/-- What a run on the folder at `top` has no business with: what lies elsewhere or in a folder
that is left alone, and what is called otherwise than by the extensions asked for. -/
def Options.Spares (o : Options) (top place : Location) : Prop :=
  ∀ names, place = top ++ names →
    (∃ n ∈ names.dropLast, o.skips n = true) ∨
      ∃ n, names.getLast? = some n ∧ o.matchesExtension n = false

/-- The tree changes if and only if the file is reported as rewritten, since a text is only stored
in place of another one. -/
theorem tree_ne_iff (w : World) (o : Options) (path : String) :
    (w.after (processFile o path)).tree ≠ w.tree ↔ (w.gives (processFile o path)).Stored := by
  obtain ⟨-, ⟨hstored, htree⟩ | ⟨hstored, place, mode, source, hfile, hchange, htree⟩⟩ :=
    (processed_file o w path).effect
  · simp only [htree, ne_eq, not_true_eq_false, hstored]
  · refine ⟨fun _ => hstored, fun _ hsame => hchange ?_⟩
    obtain ⟨-, hfind⟩ := Node.resolve_eq_ok.mp hfile
    have hnew := Node.find?_alter_self hfind (.file mode (o.clean source).text.toUTF8)
    rw [← htree, hsame, hfind] at hnew
    exact (String.toByteArray_inj.mp (Node.file.inj (Option.some.inj hnew)).2).symm

/-- **What a run changes.** Whatever the machine refuses, processing a file changes the tree if
and only if it is reported as rewritten. The file that the path leads to then has its clean text
and its access rights, and every other place looks as before: no draft is left, and links and
folders stay. So a run on a folder leaves alone all that lies elsewhere or in a folder that is
skipped, and all that is called otherwise than by the extensions asked for. -/
theorem footprint (w : World) (o : Options) :
    (∀ path, let report := w.gives (processFile o path)
      let tree := (w.after (processFile o path)).tree
      (tree ≠ w.tree ↔ ∃ n, report.outcome = .modified n true) ∧
      ((∃ n, report.outcome = .modified n true) → ∃ place mode source,
        w.tree.resolve path = .ok (place, .file mode source.toUTF8) ∧
        tree.look place = some (.file mode (o.clean source).text.toUTF8) ∧
        ∀ other, other ≠ place → tree.look other = w.tree.look other)) ∧
    ∀ target top entries, w.tree.WellFormed →
      w.tree.resolve target = .ok (top, .folder entries) → ∀ place, o.Spares top place →
        (w.after (processPath o target)).tree.look place = w.tree.look place := by
  refine ⟨fun path => ⟨tree_ne_iff w o path, fun hstored => ?_⟩, ?_⟩
  · obtain ⟨-, ⟨hnot, -⟩ | ⟨-, place, mode, source, hfile, -, htree⟩⟩ :=
      (processed_file o w path).effect
    · exact absurd hstored hnot
    · obtain ⟨-, hfind⟩ := Node.resolve_eq_ok.mp hfile
      refine ⟨place, mode, source, hfile, ?_, fun other hother => ?_⟩
      · rw [htree, Node.look_alter hfind, if_pos rfl]
      · rw [htree, Node.look_alter hfind, if_neg hother]
  · intro target top entries hwf htarget place hspares
    refine (w.confined_processPath o target).look place ?_
    rintro ⟨b, hgives, r, hr, -, hlocate⟩
    have hpath : r.path ∈ b.files.map FileReport.path := List.mem_map_of_mem hr
    rw [World.collects_folder (World.collects_of_gives hgives) htarget] at hpath
    obtain ⟨names, rfl, hchosen⟩ := Node.place_of_mem_sources o hwf htarget hpath hlocate
    rcases hspares names rfl with ⟨n, hn, hskips⟩ | ⟨n, hn, hext⟩
    · rw [hchosen.unskipped n hn] at hskips
      cases hskips
    · rw [hchosen.hasExtension n hn] at hext
      cases hext

/-! ### A run through a link -/

namespace Node

/-- A link to a folder with a file to process, a folder that is left alone and another file. -/
def linkedTree : Node :=
  .folder [("lib", .link "src"),
    ("src", .folder [("a.js", .file 0o755 "x //y\n".toUTF8),
      ("dist", .folder [("b.js", .file 0o644 "//\n".toUTF8)]),
      ("c.md", .file 0o644 "//\n".toUTF8)])]

theorem wellFormed_linkedTree : linkedTree.WellFormed := by
  have hname (name : String) (h : name ≠ "" ∧ name ≠ "." ∧ name ≠ ".." ∧ '/' ∉ name.toList) :
      Path.IsName name := ⟨h.1, h.2.1, h.2.2.1, h.2.2.2⟩
  have hlib := hname "lib" (by decide)
  have hsrc := hname "src" (by decide)
  have ha := hname "a.js" (by decide)
  have hdist := hname "dist" (by decide)
  have hb := hname "b.js" (by decide)
  have hc := hname "c.md" (by decide)
  simp [linkedTree, WellFormed, EntriesWellFormed, hlib, hsrc, ha, hdist, hb, hc]

theorem follow_linkedTree (rest : List String) :
    linkedTree.follow false maxLinks [] ("lib" :: rest) =
      linkedTree.follow false 39 ["src"] rest := by
  have hlink : linkedTree.advance maxLinks [] "lib" = .ok (39, [], ["src"]) := by
    change Except.ok (39, startOf [] "src", Path.pieces "src") = _
    rw [startOf_nil]
    rfl
  rw [follow_cons, hlink]
  simp only [List.singleton_append]
  rw [follow_cons]
  rfl

theorem resolve_lib : ∃ entries, linkedTree.resolve "lib" = .ok (["src"], folder entries) := by
  have hpieces : Path.pieces "lib" = ["lib"] := by decide
  refine ⟨_, resolve_eq_ok.mpr ⟨?_, rfl⟩⟩
  rw [locate, if_neg (by decide), if_neg (by decide), if_neg (by simp), hpieces,
    follow_linkedTree, follow]

theorem resolve_lib_file :
    linkedTree.resolve "lib/a.js" = .ok (["src", "a.js"], .file 0o755 "x //y\n".toUTF8) := by
  have hpieces : Path.pieces "lib/a.js" = ["lib", "a.js"] := by decide
  have hstep : linkedTree.advance 39 ["src"] "a.js" = .ok (39, ["src", "a.js"], []) := rfl
  refine resolve_eq_ok.mpr ⟨?_, rfl⟩
  rw [locate, if_neg (by decide), if_neg (by decide), if_neg (by simp), hpieces,
    follow_linkedTree, follow_cons, hstep]
  simp only [List.nil_append]
  rw [follow]

end Node

/-- A file that a link leads to, and what lies beside it. -/
theorem footprint_linkedTree :
    let w : World := { tree := .linkedTree }
    let o : Options := { extensions := [".js"], skipDirs := ["dist"] }
    ((w.after (processFile o "lib/a.js")).tree ≠ w.tree ∧
      ∃ place mode source, (w.after (processFile o "lib/a.js")).tree.look place =
        some (.file mode (o.clean source).text.toUTF8)) ∧
    (w.after (processPath o "lib")).tree.look ["src", "dist", "b.js"] =
      some (.file 0o644 "//\n".toUTF8) ∧
    (w.after (processPath o "lib")).tree.look ["src", "c.md"] = some (.file 0o644 "//\n".toUTF8) ∧
    (w.after (processPath o "lib")).tree.look ["lib"] = some (.link "src") := by
  intro w o
  obtain ⟨entries, hlib⟩ := Node.resolve_lib
  have hread : w.reads "lib/a.js" = .ok "x //y\n".toUTF8 :=
    World.reads_of_resolve rfl Node.resolve_lib_file
  have hstored : ∃ n, (w.gives (processFile o "lib/a.js")).outcome = .modified n true := by
    rw [(processed_file o w "lib/a.js").report_eq (Or.inr fun _ _ => rfl), hread,
      Options.judge_toUTF8, Options.outcome_judgeText_of_ne _ _ (by decide +kernel)]
    exact ⟨_, rfl⟩
  obtain ⟨hfiles, hfolder⟩ := footprint w o
  have hspared := hfolder "lib" ["src"] entries Node.wellFormed_linkedTree hlib
  refine ⟨⟨(hfiles "lib/a.js").1.mpr hstored, ?_⟩, ?_, ?_, ?_⟩
  · obtain ⟨place, mode, source, -, hlook, -⟩ := (hfiles "lib/a.js").2 hstored
    exact ⟨place, mode, source, hlook⟩
  · refine (hspared _ ?_).trans rfl
    rintro names hnames
    cases hnames
    exact Or.inl ⟨"dist", by decide, by decide⟩
  · refine (hspared _ ?_).trans rfl
    rintro names hnames
    cases hnames
    exact Or.inr ⟨"c.md", rfl, by decide⟩
  · refine (hspared _ ?_).trans rfl
    rintro names hnames
    simp at hnames

end Uncomment
