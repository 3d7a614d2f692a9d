/-
# What is announced is what is done

A run that stores nothing announces what a run that stores does: the same failure, or the same
reports on the same files in the same order, but for the mark of what was written. So `check`
tells whether `strip` would change or fail on anything, and `print` shows the text that `strip`
leaves in a file.

Key definitions: `Options.Alike`, `FileReport.asStored`. Main statement: `strip_check_print_agree`.
-/
import Uncomment.Command.Run
import Uncomment.Proofs.Footprint

namespace Uncomment

/-! ### Options that ask for the same work -/

/-- Options that choose the same files and clean them in the same way. -/
structure Options.Alike (o o' : Options) : Prop where
  extensions : o'.extensions = o.extensions
  skipDirs : o'.skipDirs = o.skipDirs
  tidy : o'.tidy = o.tidy
  scan : o'.scan = o.scan

namespace Options.Alike

variable {o o' : Options} (h : o.Alike o')

include h

theorem clean (source : String) : o'.clean source = o.clean source := by
  unfold Options.clean
  rw [h.tidy, h.scan]

theorem matchesExtension (path : String) : o'.matchesExtension path = o.matchesExtension path := by
  unfold Options.matchesExtension
  rw [h.extensions]

theorem skips (name : String) : o'.skips name = o.skips name := by
  unfold Options.skips
  rw [h.skipDirs]

mutual

theorem sources (path : String) (l : Listing) : l.sources o' path = l.sources o path := by
  cases l with
  | file => rw [Listing.sources, Listing.sources, h.matchesExtension]
  | link => rfl
  | folder entries => exact entrySources path entries

theorem entrySources (path : String) (entries : List (String × Listing)) :
    Listing.entrySources o' path entries = Listing.entrySources o path entries := by
  cases entries with
  | nil => rfl
  | cons entry entries =>
    rw [Listing.entrySources, Listing.entrySources, entrySources path entries, h.skips,
      sources _ entry.2]

end

theorem collects (w : World) (target : String) : w.collects o' target = w.collects o target := by
  unfold World.collects
  simp only [h.entrySources]

theorem isModified_judge (path : String) (contents : Except IoError ByteArray) :
    (o'.judge path contents).isModified = (o.judge path contents).isModified := by
  rw [Bool.eq_iff_iff, Options.isModified_judge, Options.isModified_judge]
  simp only [h.clean]

end Options.Alike

/-- Which files cannot be read does not depend on the options. -/
theorem failed_judge (w : World) (paths : List String) (o o' : Options) :
    (⟨paths.map fun path => o.judge path (w.reads path)⟩ : Batch).failed =
      (⟨paths.map fun path => o'.judge path (w.reads path)⟩ : Batch).failed := by
  unfold Batch.failed
  rw [List.countP_map, List.countP_map]
  refine List.countP_congr fun path _ => ?_
  rw [Function.comp_apply, Function.comp_apply, Options.isFailed_judge, Options.isFailed_judge]

theorem dryRun_alike (o : Options) (dryRun dryRun' : Bool) :
    ({ o with dryRun } : Options).Alike { o with dryRun := dryRun' } := ⟨rfl, rfl, rfl, rfl⟩

theorem ScanArgs.options_alike (a : ScanArgs) (dryRun dryRun' : Bool) (keep keep' : Retention) :
    (a.options dryRun keep).Alike (a.options dryRun' keep') := by
  unfold ScanArgs.options
  cases a.extensions.isEmpty <;> exact ⟨rfl, rfl, rfl, rfl⟩

theorem ScanArgs.dryRun_options (a : ScanArgs) (dryRun : Bool) (keep : Retention) :
    (a.options dryRun keep).dryRun = dryRun := by
  unfold ScanArgs.options
  cases a.extensions.isEmpty <;> rfl

/-! ### Runs on different files -/

namespace World

variable {w w' : World} {o : Options} {target : String} {paths : List String}

theorem Alike.collects (h : w.Alike w') (o : Options) (target : String) :
    w'.collects o target = w.collects o target := by
  unfold World.collects World.surveys
  rw [h.refuses, h.tree]

/-- The files that a target stands for are different files. -/
theorem apart_collects (hwf : w.tree.WellFormed) (h : w.collects o target = .ok paths) :
    w.tree.Apart paths := by
  rcases collects_cases h with ⟨top, entries, htarget, rfl⟩ | ⟨-, rfl⟩
  · exact Node.apart_sources o hwf htarget
  · exact List.pairwise_singleton _ _

/-- **The result of a run**, if nothing is refused that is part of writing. -/
theorem gives_processPath (hwf : w.tree.WellFormed) (hw : o.dryRun = true ∨ w.Writable)
    (target : String) :
    w.gives (processPath o target) = (w.collects o target).map fun paths =>
      ⟨paths.map fun path => o.judge path (w.reads path)⟩ := by
  rcases w.processPath_cases o target with
    ⟨failure, hcollects, hgives, -⟩ | ⟨paths, w', hcollects, hw', hgives, -⟩
  · rw [hgives, hcollects]
    rfl
  · have hapart := apart_collects hwf hcollects
    rw [← hw'.tree] at hapart
    rw [hgives, hcollects, gives_processFiles hapart (hw.imp_right hw'.writable.mpr)]
    simp only [hw'.reads]
    rfl

/-- **A run that stores leaves their clean text in the files that it collects.** -/
theorem look_processPath (hwf : w.tree.WellFormed) (hdry : o.dryRun = false) (hw : w.Writable)
    (hcollects : w.collects o target = .ok paths) {path : String} (hpath : path ∈ paths)
    {place : Location} {mode : Nat} {source : String} (hread : w.reads path = .ok source.toUTF8)
    (hfile : w.tree.resolve path = .ok (place, .file mode source.toUTF8)) :
    (w.after (processPath o target)).tree.look place =
      some (.file mode (o.clean source).text.toUTF8) := by
  rcases w.processPath_cases o target with
    ⟨failure, hfailed, -, -⟩ | ⟨paths', w', hcollects', hw', -, hafter⟩
  · rw [hcollects] at hfailed
    cases hfailed
  · rw [hcollects] at hcollects'
    cases hcollects'
    have hapart := apart_collects hwf hcollects
    rw [← hw'.tree] at hapart hfile
    rw [← hw'.reads] at hread
    rw [hafter.tree]
    exact look_processFiles hapart hdry (hw'.writable.mpr hw) hpath hread hfile

/-- A run that reports no file as rewritten leaves the tree as it is. -/
theorem tree_processPath
    (h : ∀ b, w.gives (processPath o target) = .ok b → ∀ r ∈ b.files, ¬ r.Stored) :
    (w.after (processPath o target)).tree = w.tree := by
  rcases w.processPath_cases o target with ⟨-, -, -, hw⟩ | ⟨paths, w', -, hw, hgives, hafter⟩
  · exact hw.tree
  · rw [hafter.tree, tree_processFiles o w' (h _ hgives), hw.tree]

end World

/-! ### Announced and done -/

/-- The report on a file, as if what would be written had been. -/
def FileReport.asStored (r : FileReport) : FileReport :=
  { r with
    outcome :=
      match r.outcome with
      | .modified n _ => .modified n true
      | outcome => outcome }

theorem FileReport.isModified_of_asStored (r : FileReport) {n : Nat} {written : Bool}
    (h : r.asStored.outcome = .modified n written) : r.isModified = true := by
  unfold FileReport.asStored at h
  unfold FileReport.isModified
  cases houtcome : r.outcome with
  | modified bytes stored => rfl
  | _ =>
    rw [houtcome] at h
    cases h

theorem judge_asStored (o : Options) (path : String) (contents : Except IoError ByteArray) :
    ({ o with dryRun := false } : Options).judge path contents =
      (({ o with dryRun := true } : Options).judge path contents).asStored := by
  cases contents with
  | error e => rfl
  | ok bytes =>
    cases htext : String.fromUTF8? bytes with
    | none =>
      rw [Options.judge, Options.judge, htext]
      rfl
    | some source =>
      have hclean (d : Bool) : ({ o with dryRun := d } : Options).clean source =
          o.clean source := rfl
      rw [Options.judge, Options.judge, htext]
      simp only [Options.judgeText, hclean, FileReport.asStored]
      by_cases hchange : (o.clean source).text = source
      · simp only [hchange, if_true]
      · simp only [hchange, if_false, Bool.not_false]

/-- The reports of a batch, as if what would be written had been. -/
def Batch.asStored (b : Batch) : Batch := ⟨b.files.map FileReport.asStored⟩

/-- A run that stores nothing announces what a run that stores does. -/
structure Announced (w : World) (o : Options) (target : String) : Prop where
  /-- Both fail in the same way, or report the same but for what was written. -/
  results : w.gives (processPath { o with dryRun := false } target) =
    (w.gives (processPath { o with dryRun := true } target)).map Batch.asStored
  idle : (w.after (processPath { o with dryRun := true } target)).tree = w.tree
  /-- A file that is announced to change has its clean text afterwards. -/
  rewritten : ∀ b, w.gives (processPath { o with dryRun := true } target) = .ok b →
    ∀ r ∈ b.files, ∀ n written, r.outcome = .modified n written →
      written = false ∧ ∃ place mode source,
        w.tree.resolve r.path = .ok (place, .file mode source.toUTF8) ∧
        (w.after (processPath { o with dryRun := false } target)).tree.look place =
          some (.file mode (o.clean source).text.toUTF8)
  /-- Nothing else changes. -/
  elsewhere : ∀ place,
    (∀ b, w.gives (processPath { o with dryRun := true } target) = .ok b →
      ∀ r ∈ b.files, r.isModified = true → w.tree.locate r.path ≠ .ok place) →
    (w.after (processPath { o with dryRun := false } target)).tree.look place = w.tree.look place

section Announced

variable {w : World} (hwf : w.tree.WellFormed) (hw : w.Writable)

include hwf hw

theorem results_agree (o : Options) (target : String) :
    w.gives (processPath { o with dryRun := false } target) =
      (w.gives (processPath { o with dryRun := true } target)).map Batch.asStored := by
  rw [World.gives_processPath hwf (Or.inr hw), World.gives_processPath hwf (Or.inl rfl),
    (dryRun_alike o true false).collects]
  cases w.collects { o with dryRun := true } target with
  | error failure => rfl
  | ok paths =>
    simp only [Except.map, Batch.asStored, List.map_map]
    congr 2
    exact List.map_congr_left fun path _ => judge_asStored o path (w.reads path)

/-- A file is reported as modified if cleaning changes the text that is read from it. -/
theorem report_modified {o : Options} {target : String} {b : Batch}
    (hb : w.gives (processPath o target) = .ok b) {r : FileReport} (hr : r ∈ b.files) {n : Nat}
    {written : Bool} (houtcome : r.outcome = .modified n written) :
    written = !o.dryRun ∧ ∃ paths place mode source, w.collects o target = .ok paths ∧
      r.path ∈ paths ∧ w.reads r.path = .ok source.toUTF8 ∧
      w.tree.resolve r.path = .ok (place, .file mode source.toUTF8) ∧
      (o.clean source).text ≠ source := by
  rw [World.gives_processPath hwf (Or.inr hw)] at hb
  cases hcollects : w.collects o target with
  | error failure =>
    rw [hcollects] at hb
    cases hb
  | ok paths =>
    rw [hcollects] at hb
    cases hb
    obtain ⟨path, hpath, rfl⟩ := List.mem_map.mp hr
    obtain ⟨hwritten, source, hread, hchange⟩ := o.outcome_judge_eq_modified houtcome
    obtain ⟨place, mode, hfile⟩ := World.resolve_of_reads hread
    rw [o.path_judge]
    exact ⟨hwritten, paths, place, mode, source, rfl, hpath, hread, hfile, hchange⟩

/-- A run that stores leaves the tree as it is if and only if it reports no file as modified. -/
theorem tree_eq_iff {o : Options} {target : String} {b : Batch} (hdry : o.dryRun = false)
    (hb : w.gives (processPath o target) = .ok b) :
    (w.after (processPath o target)).tree = w.tree ↔ ∀ r ∈ b.files, r.isModified = false := by
  constructor
  · intro htree r hr
    unfold FileReport.isModified
    split
    · next n written houtcome =>
      obtain ⟨-, paths, place, mode, source, hcollects, hpath, hread, hfile, hchange⟩ :=
        report_modified hwf hw hb hr houtcome
      have hlook := World.look_processPath hwf hdry hw hcollects hpath hread hfile
      rw [htree, Node.look_eq_file, (Node.resolve_eq_ok.mp hfile).2] at hlook
      have hsame := (Node.file.inj (Option.some.inj hlook)).2
      exact absurd (String.toByteArray_inj.mp hsame).symm hchange
    · rfl
  · intro hmodified
    refine World.tree_processPath fun b' hb' r hr => ?_
    rw [hb] at hb'
    cases hb'
    rintro ⟨n, houtcome⟩
    have hsame := hmodified r hr
    rw [FileReport.isModified, houtcome] at hsame
    cases hsame

theorem announced (o : Options) (target : String) : Announced w o target where
  results := results_agree hwf hw o target
  idle := by
    refine World.tree_processPath fun b hb r hr => ?_
    rintro ⟨n, houtcome⟩
    have hwritten := (report_modified hwf hw hb hr houtcome).1
    cases hwritten
  rewritten := by
    intro b hb r hr n written houtcome
    obtain ⟨hwritten, paths, place, mode, source, hcollects, hpath, hread, hfile, -⟩ :=
      report_modified hwf hw hb hr houtcome
    rw [← (dryRun_alike o true false).collects] at hcollects
    exact ⟨hwritten, place, mode, source, hfile,
      World.look_processPath hwf rfl hw hcollects hpath hread hfile⟩
  elsewhere := by
    intro place hplace
    refine (w.confined_processPath _ target).look place ?_
    rintro ⟨b, hb, r, hr, ⟨n, houtcome⟩, hlocate⟩
    rw [results_agree hwf hw] at hb
    cases hannounced : w.gives (processPath { o with dryRun := true } target) with
    | error failure =>
      rw [hannounced] at hb
      cases hb
    | ok b₀ =>
      rw [hannounced] at hb
      cases hb
      obtain ⟨r₀, hr₀, rfl⟩ := List.mem_map.mp hr
      exact hplace b₀ hannounced r₀ hr₀ (r₀.isModified_of_asStored houtcome) hlocate

end Announced

/-! ### Commands -/

namespace Command

/-- A command notes that it starts, and then runs. -/
theorem onBatch_run (w : World) (path : String) (o : Options) (report : Batch → Output) :
    ∃ w', w.Alike w' ∧ w.after (onBatch path o report) = w'.after (processPath o path) ∧
      w.gives (onBatch path o report) =
        match w'.gives (processPath o path) with
        | .error failure => .ofFailure ("cannot process " ++ path) failure.chain
        | .ok batch => report batch := by
  refine ⟨w.after (Host.note (.starting path o)), (World.Alike.refl w).note _, ?_⟩
  unfold onBatch
  rw [World.after_bind, World.gives_bind, World.after_bind, World.gives_bind]
  cases (w.after (Host.note (.starting path o))).gives (processPath o path) with
  | error failure => exact ⟨rfl, rfl⟩
  | ok batch => exact ⟨rfl, rfl⟩

theorem exit_checkReport (format : Format) (path : String) (quiet verbose : Bool) (b : Batch) :
    (checkReport format path quiet verbose b).exit = 0 ↔
      (∀ r ∈ b.files, r.isModified = false) ∧ b.failed = 0 := by
  have hchanged : (wouldChange b).isEmpty = true ↔ ∀ r ∈ b.files, r.isModified = false := by
    simp [wouldChange, List.filter_eq_nil_iff]
  have hexit : (checkReport format path quiet verbose b).exit =
      if (wouldChange b).isEmpty && b.failed == 0 then 0 else 1 := by
    cases format <;> rfl
  rw [hexit, ← hchanged]
  by_cases hclean : ((wouldChange b).isEmpty && b.failed == 0) = true
  · rw [if_pos hclean]
    simpa using hclean
  · rw [if_neg hclean]
    simpa using hclean

/-- The exit code of `check`, from the result of a run that stores nothing. -/
theorem exit_check (w : World) (format : Format) (verbose : Bool) (input : ByteArray)
    (path : String) (quiet : Bool) (args : ScanArgs) :
    ∃ w', w.Alike w' ∧ ((w.gives (run format verbose input (.check path quiet args))).exit = 0 ↔
      ∃ b, w'.gives (processPath (args.options true (format.retention quiet verbose)) path) =
        .ok b ∧ (∀ r ∈ b.files, r.isModified = false) ∧ b.failed = 0) := by
  obtain ⟨w', hw, -, hgives⟩ := onBatch_run w path
    (args.options true (format.retention quiet verbose)) (checkReport format path quiet verbose)
  refine ⟨w', hw, ?_⟩
  rw [run, hgives]
  cases w'.gives (processPath (args.options true (format.retention quiet verbose)) path) with
  | error failure => simp [Output.ofFailure]
  | ok b => simp [exit_checkReport]

/-- `print` shows the clean text of the file that it reads. -/
theorem gives_print {w : World} {file source : String} (hstdin : file ≠ "-")
    (hread : w.reads file = .ok source.toUTF8) (format : Format) (verbose : Bool)
    (input : ByteArray) (args : ScanArgs) :
    w.gives (run format verbose input (.print file args)) =
      printReport format file verbose ((args.options true .warnings).clean source) := by
  have hfile : (file == "-") = false := by simpa using hstdin
  have hrun := w.read_run file
  rw [hread] at hrun
  unfold run World.gives
  simp only [hfile, Bool.false_eq_true, if_false]
  rw [World.bind_run hrun]
  simp only [decode, fromUTF8?_toUTF8]
  rfl

end Command

/-- A text is shown as it is, or as the text of a document. -/
def Output.Shows (output : Output) (format : Format) (text : String) : Prop :=
  output.exit = 0 ∧ match format with
    | .pretty => output.stdout = text
    | .json => ∃ fields, output.stdout = printDocument (.object fields) ∧
      ("text", .str text) ∈ fields

theorem shows_printReport (format : Format) (name : String) (verbose : Bool) (s : Stripped) :
    (Command.printReport format name verbose s).Shows format s.text := by
  cases format with
  | pretty => exact ⟨rfl, rfl⟩
  | json => exact ⟨rfl, _, rfl, by simp⟩

section Commands

variable {w : World} (hwf : w.tree.WellFormed) (hw : w.Writable)

include hwf hw

/-- **`check` tells whether `strip` would change or fail on anything.** -/
theorem exit_check_eq_zero (format : Format) (verbose : Bool) (input : ByteArray) (path : String)
    (quiet : Bool) (args : ScanArgs) (keep : Retention) :
    (w.gives (Command.run format verbose input (.check path quiet args))).exit = 0 ↔
      ∃ b, w.gives (processPath (args.options false keep) path) = .ok b ∧
        (w.after (processPath (args.options false keep) path)).tree = w.tree ∧ b.failed = 0 := by
  obtain ⟨w', hw', hexit⟩ := Command.exit_check w format verbose input path quiet args
  have halike := args.options_alike true false (format.retention quiet verbose) keep
  have hdone := World.gives_processPath (o := args.options false keep) hwf (Or.inr hw) path
  have hwf' := hwf
  rw [← hw'.tree] at hwf'
  rw [hexit, World.gives_processPath hwf' (Or.inl (args.dryRun_options ..)), hw'.collects,
    ← halike.collects]
  simp only [hw'.reads]
  cases hcollects : w.collects (args.options false keep) path with
  | error failure =>
    rw [hdone, hcollects]
    simp [Except.map]
  | ok paths =>
    rw [hcollects] at hdone
    have htree := tree_eq_iff hwf hw (args.dryRun_options ..) hdone
    have hfailed := failed_judge w paths (args.options false keep)
      (args.options true (format.retention quiet verbose))
    rw [hdone]
    simp only [Except.map, Except.ok.injEq, exists_eq_left'] at htree ⊢
    rw [htree, hfailed, List.forall_mem_map, List.forall_mem_map]
    simp only [halike.isModified_judge]

/-- **`strip` leaves the clean text in a file.** -/
theorem contents_strip (args : ScanArgs) {file : String} {place : Location} {mode : Nat}
    {source : String} (hfile : w.tree.resolve file = .ok (place, .file mode source.toUTF8))
    (hsurvey : w.refuses (.survey file) = none) (hread : w.refuses (.read file) = none)
    (format : Format) (verbose : Bool) (input : ByteArray) (quiet : Bool) (keep : Retention) :
    (w.after (Command.run format verbose input (.strip file false quiet args))).contents file =
      .ok ((args.options true keep).clean source).text.toUTF8 := by
  obtain ⟨w', hw', hafter, -⟩ := Command.onBatch_run w file
    (args.options false (format.retention quiet verbose))
    (Command.stripReport format file (args.options false (format.retention quiet verbose)) quiet
      verbose)
  have hreads := World.reads_of_resolve hread hfile
  have hcollects : w'.collects (args.options false (format.retention quiet verbose)) file =
      .ok [file] := by
    rw [hw'.collects, World.collects, World.surveys, hsurvey, hfile]
  rw [← hw'.reads] at hreads
  rw [← hw'.tree] at hwf hfile
  have hlook := World.look_processPath hwf (args.dryRun_options ..) (hw'.writable.mpr hw) hcollects
    (List.mem_singleton.mpr rfl) hreads hfile
  have hconfined := w'.confined_processPath
    (args.options false (format.retention quiet verbose)) file
  rw [Command.run, hafter, World.contents_eq, hconfined.locate, (Node.resolve_eq_ok.mp hfile).1]
  simp only [hlook]
  rw [(args.options_alike true false keep (format.retention quiet verbose)).clean]

end Commands

/-- **What is announced is what is done.** In a well-formed tree, and if nothing is refused that is
part of writing, a run that stores nothing announces what a run that stores does. So `check`
succeeds if and only if `strip` gives reports, changes nothing and fails nowhere, and `print` shows
the text that `strip` leaves in a file, however each of them reports. -/
theorem strip_check_print_agree (w : World) (hwf : w.tree.WellFormed) (hw : w.Writable) :
    (∀ (o : Options) (target : String), Announced w o target) ∧
    (∀ (args : ScanArgs) (path : String) (format : Format) (quiet verbose : Bool)
        (input : ByteArray) (keep : Retention),
      (w.gives (Command.run format verbose input (.check path quiet args))).exit = 0 ↔
        ∃ b, w.gives (processPath (args.options false keep) path) = .ok b ∧
          (w.after (processPath (args.options false keep) path)).tree = w.tree ∧ b.failed = 0) ∧
    ∀ (args : ScanArgs) (file source : String), file ≠ "-" →
      w.contents file = .ok source.toUTF8 →
      w.refuses (.survey file) = none → w.refuses (.read file) = none →
      ∃ text, ∀ (format : Format) (verbose : Bool) (input : ByteArray),
        (∀ quiet, (w.after (Command.run format verbose input
          (.strip file false quiet args))).contents file = .ok text.toUTF8) ∧
        (w.gives (Command.run format verbose input (.print file args))).Shows format text := by
  refine ⟨announced hwf hw, ?_, ?_⟩
  · intro args path format quiet verbose input keep
    exact exit_check_eq_zero hwf hw format verbose input path quiet args keep
  · intro args file source hstdin hcontents hsurvey hread
    have hreads : w.reads file = .ok source.toUTF8 := by rw [World.reads, hread, hcontents]
    obtain ⟨place, mode, hfile⟩ := World.resolve_of_reads hreads
    refine ⟨((args.options true .warnings).clean source).text, fun format verbose input => ⟨?_, ?_⟩⟩
    · intro quiet
      exact contents_strip hwf hw args hfile hsurvey hread format verbose input quiet .warnings
    · rw [Command.gives_print hstdin hreads]
      exact shows_printReport ..

/-- A folder that a link leads to, and a file in it. -/
theorem strip_check_print_agree_linkedTree :
    let w : World := { tree := .linkedTree }
    w.tree.WellFormed ∧ w.Writable ∧ Announced w {} "lib" ∧
    ∃ text, (w.after (Command.run .json false .empty (.strip "lib/a.js" false true {}))).contents
        "lib/a.js" = .ok text.toUTF8 ∧
      (w.gives (Command.run .pretty false .empty (.print "lib/a.js" {}))).stdout = text := by
  intro w
  have hwritable : w.Writable := fun _ _ => rfl
  obtain ⟨hannounced, -, hprint⟩ :=
    strip_check_print_agree w Node.wellFormed_linkedTree hwritable
  have hfile : w.tree.resolve "lib/a.js" = _ := Node.resolve_lib_file
  have hcontents : w.contents "lib/a.js" = .ok "x //y\n".toUTF8 := by
    rw [World.contents, hfile]
  obtain ⟨text, htext⟩ := hprint {} "lib/a.js" "x //y\n" (by decide) hcontents rfl rfl
  exact ⟨Node.wellFormed_linkedTree, hwritable, hannounced {} "lib", text,
    (htext .json false .empty).1 true, (htext .pretty false .empty).2.2⟩

end Uncomment
