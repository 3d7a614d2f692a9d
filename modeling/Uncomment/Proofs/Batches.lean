/-
# Files one after the other

A file that is processed leaves every path leading where it led, and no place looks different
but that of a file that is reported as rewritten. So does a batch of files, by induction. If the
paths lead to different files and nothing is refused, then no file is touched before its turn:
each report is the one that the file would have got alone.

Key definitions: `FileReport.Stored`, `World.Confined`, `Node.Apart`. Main statements:
`Processed.effect`, `confined_processFiles`, `gives_processFiles`, `look_processFiles`.
-/
import Uncomment.Proofs.Outcomes

namespace Uncomment

/-- Whether a file is reported to hold its new text. -/
def FileReport.Stored (r : FileReport) : Prop := ∃ n, r.outcome = .modified n true

/-! ### Changes that are confined to some places -/

/-- One world comes from another by rewriting files at some places. -/
structure World.Confined (w w' : World) (touched : Location → Prop) : Prop where
  refuses : w'.refuses = w.refuses
  kindAt : ∀ place, w'.tree.kindAt place = w.tree.kindAt place
  look : ∀ place, ¬ touched place → w'.tree.look place = w.tree.look place

namespace World

/-- What is read depends on what is seen. -/
theorem contents_eq (w : World) (path : String) :
    w.contents path =
      match w.tree.locate path with
      | .error e => .error e
      | .ok place =>
        match w.tree.look place with
        | none => .error .noEntry
        | some (.file _ bytes) => .ok bytes
        | some _ => .error .isDirectory := by
  unfold contents Node.resolve Node.look
  cases w.tree.locate path with
  | error e => rfl
  | ok place =>
    simp only [bind, Except.bind]
    cases w.tree.find? place with
    | none => rfl
    | some node => cases node <;> rfl

namespace Confined

variable {w w' w'' : World} {touched touched' : Location → Prop}

theorem of_alike (h : w.Alike w') : w.Confined w' touched where
  refuses := h.refuses
  kindAt place := by rw [h.tree]
  look place _ := by rw [h.tree]

theorem trans (h : w.Confined w' touched) (h' : w'.Confined w'' touched) :
    w.Confined w'' touched where
  refuses := h'.refuses.trans h.refuses
  kindAt place := (h'.kindAt place).trans (h.kindAt place)
  look place hplace := (h'.look place hplace).trans (h.look place hplace)

theorem mono (h : w.Confined w' touched) (hsub : ∀ place, touched place → touched' place) :
    w.Confined w' touched' :=
  ⟨h.refuses, h.kindAt, fun place hplace => h.look place fun hp => hplace (hsub place hp)⟩

theorem locate (h : w.Confined w' touched) (path : String) :
    w'.tree.locate path = w.tree.locate path := by
  rw [Node.locate_congr h.kindAt]

theorem reads (h : w.Confined w' touched) {path : String}
    (hpath : ∀ place, w.tree.locate path = .ok place → ¬ touched place) :
    w'.reads path = w.reads path := by
  unfold World.reads
  rw [h.refuses, contents_eq, contents_eq, h.locate]
  cases hlocate : w.tree.locate path with
  | error e => rfl
  | ok place => simp only [h.look place (hpath place hlocate)]

theorem resolve_file (h : w.Confined w' touched) {path : String} {location : Location} {mode : Nat}
    {contents : ByteArray} (hfile : w.tree.resolve path = .ok (location, .file mode contents))
    (hlocation : ¬ touched location) :
    w'.tree.resolve path = .ok (location, .file mode contents) := by
  obtain ⟨hlocate, hfind⟩ := Node.resolve_eq_ok.mp hfile
  refine Node.resolve_eq_ok.mpr ⟨by rw [h.locate, hlocate], ?_⟩
  rw [← Node.look_eq_file, h.look location hlocation, Node.look_eq_file, hfind]

theorem writable (h : w.Confined w' touched) : w'.Writable ↔ w.Writable := by
  unfold Writable
  rw [h.refuses]

end Confined

end World

/-! ### One file -/

namespace Processed

variable {o : Options} {w w' : World} {path : String} {r : FileReport}

theorem path_eq (h : Processed o w path (r, w')) : r.path = path := by
  cases h with
  | kept => exact o.path_judge path _
  | stored => exact o.path_judge path _
  | refused => rfl

/-- **What processing one file does to the tree.** -/
theorem effect (h : Processed o w path (r, w')) :
    w'.refuses = w.refuses ∧
      (¬ r.Stored ∧ w'.tree = w.tree ∨
        r.Stored ∧ ∃ location mode source,
          w.tree.resolve path = .ok (location, .file mode source.toUTF8) ∧
          (o.clean source).text ≠ source ∧
          w'.tree = w.tree.alter (some (.file mode (o.clean source).text.toUTF8)) location) := by
  cases h with
  | kept hstays hw =>
    refine ⟨hw.refuses, Or.inl ⟨?_, hw.tree⟩⟩
    rintro ⟨n, hn⟩
    rcases hstays with hdry | hsame
    · have hwritten := (o.outcome_judge_eq_modified hn).1
      rw [hdry] at hwritten
      cases hwritten
    · rw [FileReport.isModified, hn] at hsame
      cases hsame
  | stored hdry hread hfile hchange hw =>
    refine ⟨hw.refuses, Or.inr ⟨?_, _, _, _, hfile, hchange, hw.tree⟩⟩
    rw [hread, Options.judge_toUTF8, FileReport.Stored, o.outcome_judgeText_of_ne path hchange,
      hdry]
    exact ⟨_, rfl⟩
  | refused hdry hrefused hw =>
    refine ⟨hw.refuses, Or.inl ⟨?_, hw.tree⟩⟩
    rintro ⟨n, hn⟩
    cases hn

/-- A file that is processed is the only place that may look different. -/
theorem confined (h : Processed o w path (r, w')) :
    w.Confined w' fun place => r.Stored ∧ w.tree.locate path = .ok place := by
  obtain ⟨hrefuses, ⟨-, htree⟩ | ⟨hstored, location, mode, source, hfile, -, htree⟩⟩ := h.effect
  · exact ⟨hrefuses, fun place => by rw [htree], fun place _ => by rw [htree]⟩
  · obtain ⟨hlocate, hfind⟩ := Node.resolve_eq_ok.mp hfile
    refine ⟨hrefuses, fun place => ?_, fun place hplace => ?_⟩
    · rw [htree, Node.kindAt_alter hfind]
    · rw [htree, Node.look_alter hfind, if_neg]
      rintro rfl
      exact hplace ⟨hstored, hlocate⟩

/-- Where nothing is refused, the report is the one that the file deserves. -/
theorem report_eq (h : Processed o w path (r, w')) (hw : o.dryRun = true ∨ w.Writable) :
    r = o.judge path (w.reads path) := by
  cases h with
  | kept => rfl
  | stored => rfl
  | refused hdry hrefused _ =>
    rcases hw with hd | hw
    · rw [hdry] at hd
      cases hd
    · exact absurd hw hrefused

/-- After a run that stores what it wants to, a text file holds its clean text. -/
theorem look_self (h : Processed o w path (r, w')) (hdry : o.dryRun = false) (hw : w.Writable)
    {location : Location} {mode : Nat} {source : String}
    (hread : w.reads path = .ok source.toUTF8)
    (hfile : w.tree.resolve path = .ok (location, .file mode source.toUTF8)) :
    w'.tree.look location = some (.file mode (o.clean source).text.toUTF8) := by
  obtain ⟨hlocate, hfind⟩ := Node.resolve_eq_ok.mp hfile
  cases h with
  | kept hstays hw' =>
    have hclean : (o.clean source).text = source := by
      refine Decidable.byContradiction fun hchange => ?_
      rw [hdry, hread, Options.judge_toUTF8, FileReport.isModified,
        o.outcome_judgeText_of_ne path hchange] at hstays
      simp at hstays
    rw [hw'.tree, hclean, Node.look_eq_file, hfind]
  | stored _ hread' hfile' _ hw' =>
    rw [hread] at hread'
    cases String.toByteArray_inj.mp (Except.ok.inj hread')
    rw [hfile] at hfile'
    cases hfile'
    rw [hw'.tree, World.set, Node.look_alter hfind, if_pos rfl]
  | refused _ hrefused _ => exact absurd hw hrefused

end Processed

/-! ### Some files -/

section Run

variable (o : Options) (w : World)

theorem processed_file (path : String) :
    Processed o w path (w.gives (processFile o path), w.after (processFile o path)) :=
  processed o path w

theorem gives_processFiles_cons (path : String) (paths : List String) :
    w.gives (processFiles o (path :: paths)) =
      w.gives (processFile o path) ::
        (w.after (processFile o path)).gives (processFiles o paths) := by
  rw [processFiles, List.mapM_cons]
  rfl

theorem after_processFiles_cons (path : String) (paths : List String) :
    w.after (processFiles o (path :: paths)) =
      (w.after (processFile o path)).after (processFiles o paths) := by
  rw [processFiles, List.mapM_cons]
  rfl

/-- The reports are on the files asked for, in their order. -/
theorem path_processFiles (paths : List String) :
    (w.gives (processFiles o paths)).map FileReport.path = paths := by
  induction paths generalizing w with
  | nil => rfl
  | cons path paths ih =>
    rw [gives_processFiles_cons, List.map_cons, ih, (processed_file o w path).path_eq]

/-- **A batch changes only the files that it reports to have changed**, whatever is refused. -/
theorem confined_processFiles (paths : List String) :
    w.Confined (w.after (processFiles o paths)) fun place =>
      ∃ r ∈ w.gives (processFiles o paths), r.Stored ∧ w.tree.locate r.path = .ok place := by
  induction paths generalizing w with
  | nil => exact .of_alike (.refl w)
  | cons path paths ih =>
    have hfirst := (processed_file o w path).confined
    have hpath := (processed_file o w path).path_eq
    rw [gives_processFiles_cons, after_processFiles_cons]
    refine (hfirst.mono ?_).trans ((ih _).mono ?_)
    · rintro place ⟨hstored, hlocate⟩
      exact ⟨_, List.mem_cons_self, hstored, by rw [hpath, hlocate]⟩
    · rintro place ⟨r, hr, hstored, hlocate⟩
      exact ⟨r, List.mem_cons_of_mem _ hr, hstored, by rw [← hfirst.locate, hlocate]⟩

/-- A batch that reports no file as rewritten leaves the tree as it is. -/
theorem tree_processFiles {paths : List String}
    (h : ∀ r ∈ w.gives (processFiles o paths), ¬ r.Stored) :
    (w.after (processFiles o paths)).tree = w.tree := by
  induction paths generalizing w with
  | nil => rfl
  | cons path paths ih =>
    rw [gives_processFiles_cons, List.forall_mem_cons] at h
    rw [after_processFiles_cons, ih _ h.2]
    obtain ⟨-, ⟨-, htree⟩ | ⟨hstored, -⟩⟩ := (processed_file o w path).effect
    · exact htree
    · exact absurd hstored h.1

end Run

/-! ### Different files -/

/-- Paths that lead to different places, as far as they lead anywhere. -/
def Node.Apart (t : Node) (paths : List String) : Prop :=
  paths.Pairwise fun p q => ∀ place, t.locate p = .ok place → t.locate q ≠ .ok place

section Apart

variable {o : Options} {w : World} {path : String} {paths : List String}

theorem reads_after (hapart : w.tree.Apart (path :: paths)) {next : String} (hnext : next ∈ paths) :
    (w.after (processFile o path)).reads next = w.reads next := by
  refine (processed_file o w path).confined.reads ?_
  rintro place hlocate ⟨-, hplace⟩
  exact (List.pairwise_cons.mp hapart).1 next hnext place hplace hlocate

theorem apart_after (hapart : w.tree.Apart (path :: paths)) :
    (w.after (processFile o path)).tree.Apart paths := by
  have hlocate := (processed_file o w path).confined.locate
  refine (List.pairwise_cons.mp hapart).2.imp ?_
  intro p q hpq
  rwa [hlocate, hlocate]

/-- **No file is touched before its turn**, so that each gets the report that it deserves. -/
theorem gives_processFiles (hapart : w.tree.Apart paths) (hw : o.dryRun = true ∨ w.Writable) :
    w.gives (processFiles o paths) = paths.map fun path => o.judge path (w.reads path) := by
  induction paths generalizing w with
  | nil => rfl
  | cons path paths ih =>
    have hfirst := (processed_file o w path)
    have hw' := hw.imp_right hfirst.confined.writable.mpr
    rw [gives_processFiles_cons, hfirst.report_eq hw, ih (apart_after hapart) hw', List.map_cons]
    congr 1
    refine List.map_congr_left fun next hnext => ?_
    rw [reads_after hapart hnext]

/-- **Every text file holds its clean text** once it had its turn. -/
theorem look_processFiles (hapart : w.tree.Apart paths) (hdry : o.dryRun = false)
    (hw : w.Writable) (hpath : path ∈ paths) {location : Location} {mode : Nat} {source : String}
    (hread : w.reads path = .ok source.toUTF8)
    (hfile : w.tree.resolve path = .ok (location, .file mode source.toUTF8)) :
    (w.after (processFiles o paths)).tree.look location =
      some (.file mode (o.clean source).text.toUTF8) := by
  have hlocate := (Node.resolve_eq_ok.mp hfile).1
  induction paths generalizing w with
  | nil => cases hpath
  | cons first paths ih =>
    obtain ⟨hfirst, -⟩ := List.pairwise_cons.mp hapart
    have hstep := processed_file o w first
    rw [after_processFiles_cons]
    rcases List.mem_cons.mp hpath with rfl | hpath
    · -- nothing that follows comes back to this file
      rw [← hstep.look_self hdry hw hread hfile]
      refine (confined_processFiles o _ paths).look location ?_
      rintro ⟨r, hr, -, hplace⟩
      have hmem := List.mem_map_of_mem (f := FileReport.path) hr
      rw [path_processFiles] at hmem
      rw [hstep.confined.locate] at hplace
      exact hfirst r.path hmem location hlocate hplace
    · have hkeeps := hstep.confined.resolve_file hfile fun htouched =>
        hfirst path hpath location htouched.2 hlocate
      refine ih (apart_after hapart) (hstep.confined.writable.mpr hw) hpath ?_ hkeeps ?_
      · rw [reads_after hapart hpath, hread]
      · rw [hstep.confined.locate, hlocate]

end Apart

end Uncomment
