/-
# A second run

Cleaning a text that has been cleaned changes nothing and finds no comment, if the source is steady:
its slashes are read alike with the comments gone, and no carriage return comes to the end of a line
when the stripped text is trimmed (`Options.steady`).

So a run that fails nowhere leaves its files in a state in which cleaning them changes nothing. A
path that has been processed may lead to a file that is processed again under another path, but that
does not change the file any more. Replacing files by files keeps the shape of the tree, so that a
second run collects the same files. It changes nothing, and neither would `check` announce a change.

Key definitions: `Options.steady`, `Options.Fixes`, `World.Steady`. Main statement:
`second_run_idle`.
-/
import Uncomment.Proofs.Agreement
import Uncomment.Proofs.Retidying
import Uncomment.Proofs.Trimming

namespace Uncomment

open Text

/-! ### Texts -/

namespace Options

/-- Whether the slashes of a source are read alike with the comments gone, and no carriage return
comes to the end of a line when the stripped text is trimmed. -/
def steady (o : Options) (source : String) : Bool :=
  Scan.steady o.scan { rest := source.toList } &&
    (!o.tidy || keepsReturns (strip o.scan source).text.toList)

/-- Cleaning leaves a text as it is, and finds no comment in it. -/
structure Fixes (o : Options) (text : String) : Prop where
  same : (o.clean text).text = text
  removed : (o.clean text).stats.removed = 0

/-- **Cleaning fixes what it gives**, if the source is steady. -/
theorem fixes_clean {o : Options} {source : String} (h : o.steady source = true) :
    o.Fixes (o.clean source).text := by
  rw [steady, Bool.and_eq_true] at h
  have hclear := clear_of_steady o.scan h.1
  cases htidy : o.tidy with
  | false =>
    have hsame : ∀ text, o.clean text = strip o.scan text := fun text => by simp [clean, htidy]
    obtain ⟨htext, hremoved⟩ := strip_of_clear o.scan hclear
    rw [hsame]
    exact ⟨by rw [hsame, htext], by rw [hsame, hremoved]⟩
  | true =>
    have hreturns : keepsReturns (strip o.scan source).text.toList = true := by
      simpa [htidy] using h.2
    have htext : ∀ text, (o.clean text).text = Uncomment.tidy (strip o.scan text).text :=
      fun text => by simp [clean, htidy]
    have hstats : ∀ text, (o.clean text).stats = (strip o.scan text).stats := fun text => by
      simp [clean, htidy]
    rw [htext]
    generalize (strip o.scan source).text = stripped at hclear hreturns
    have hagain : Clear (Uncomment.tidy stripped).toList := by
      rw [Uncomment.tidy, String.toList_ofList]
      exact hclear.tidyChars
    obtain ⟨hstrip, hremoved⟩ := strip_of_clear o.scan hagain
    refine ⟨?_, by rw [hstats, hremoved]⟩
    rw [htext, hstrip, Uncomment.tidy, Uncomment.tidy, String.toList_ofList,
      tidyChars_tidyChars hreturns]

end Options

/-! ### The shape of a tree -/

namespace Node

theorem entryListings_setEntry {name : String} {node new : Node} {entries : List (String × Node)}
    (h : child? name entries = some node) (hnew : new.listing = node.listing) :
    entryListings (setEntry name (some new) entries) = entryListings entries := by
  induction entries with
  | nil => cases h
  | cons entry entries ih =>
    obtain ⟨k, first⟩ := entry
    rw [child?_cons] at h
    rw [setEntry]
    by_cases hk : k = name
    · subst hk
      rw [if_pos rfl] at h
      cases h
      simp [entryListings, hnew]
    · rw [if_neg (Ne.symm hk)] at h
      rw [if_neg hk, entryListings, entryListings, ih h]

/-- To replace a file by another one changes no listing. -/
theorem listing_alter {t : Node} {location : Location} {mode : Nat} {contents : ByteArray}
    (h : t.find? location = some (file mode contents)) (mode' : Nat) (contents' : ByteArray)
    (place : Location) :
    ((t.alter (some (file mode' contents')) location).find? place).map listing =
      (t.find? place).map listing := by
  induction location generalizing t place with
  | nil =>
    cases h.symm.trans (find?_nil t)
    cases place <;> rfl
  | cons name names ih =>
    obtain ⟨entries, next, rfl, hnext, hfind⟩ := exists_child?_of_find? h
    rw [alter_cons hnext]
    cases place with
    | nil =>
      have hlisting := ih hfind []
      rw [find?_nil, find?_nil, Option.map_some, Option.map_some, Option.some.injEq] at hlisting
      rw [find?_nil, find?_nil, Option.map_some, Option.map_some, listing, listing,
        entryListings_setEntry hnext hlisting]
    | cons k ks =>
      rw [find?_folder_cons, find?_folder_cons]
      by_cases hk : k = name
      · subst hk
        rw [child?_setEntry_self, hnext]
        exact ih hfind ks
      · rw [child?_setEntry_of_ne hk]

end Node

namespace World

variable {w w' w'' : World} {o : Options} {target path : String} {paths : List String}

/-- One world comes from another by rewriting files, so that it has the same shape. -/
structure Reshaped (w w' : World) : Prop where
  refuses : w'.refuses = w.refuses
  locate : ∀ path, w'.tree.locate path = w.tree.locate path
  listing : ∀ place, (w'.tree.find? place).map Node.listing = (w.tree.find? place).map Node.listing

theorem Reshaped.of_alike (h : w.Alike w') : w.Reshaped w' where
  refuses := h.refuses
  locate path := by rw [h.tree]
  listing place := by rw [h.tree]

theorem Reshaped.trans (h : w.Reshaped w') (h' : w'.Reshaped w'') : w.Reshaped w'' where
  refuses := h'.refuses.trans h.refuses
  locate path := (h'.locate path).trans (h.locate path)
  listing place := (h'.listing place).trans (h.listing place)

/-- A target stands for the same files as long as the tree keeps its shape. -/
theorem Reshaped.collects (h : w.Reshaped w') (o : Options) (target : String) :
    w'.collects o target = w.collects o target := by
  unfold World.collects surveys
  rw [h.refuses]
  cases w.refuses (.survey target) with
  | some e => rfl
  | none =>
    unfold Node.resolve
    rw [h.locate]
    cases w.tree.locate target with
    | error e => rfl
    | ok place =>
      have hlisting := h.listing place
      simp only [bind, Except.bind]
      generalize w.tree.find? place = found at hlisting
      generalize w'.tree.find? place = found' at hlisting
      cases found with
      | none => cases found' with
        | none => rfl
        | some node' => cases hlisting
      | some node => cases found' with
        | none => cases hlisting
        | some node' =>
          have hnode : node'.listing = node.listing := Option.some.inj hlisting
          cases node <;> cases node' <;> simp_all [Node.listing]

end World

/-! ### One file -/

section File

variable {o : Options} {w w' : World} {path : String} {r : FileReport}

theorem Processed.reshaped (h : Processed o w path (r, w')) : w.Reshaped w' := by
  obtain ⟨hrefuses, ⟨-, htree⟩ | ⟨-, location, mode, source, hfile, -, htree⟩⟩ := h.effect
  · exact ⟨hrefuses, fun path => by rw [htree], fun place => by rw [htree]⟩
  · obtain ⟨-, hfind⟩ := Node.resolve_eq_ok.mp hfile
    refine ⟨hrefuses, h.confined.locate, fun place => ?_⟩
    rw [htree, Node.listing_alter hfind]

theorem World.refuses_of_reads {bytes : ByteArray} (h : w.reads path = .ok bytes) :
    w.refuses (.read path) = none := by
  unfold World.reads at h
  split at h
  · cases h
  · assumption

/-- Where a text has been stored, it is read. -/
theorem World.reads_alter {location : Location} {node : Node} {mode : Nat} {contents : ByteArray}
    (hlocate : w'.tree.locate path = .ok location) (hfind : w.tree.find? location = some node)
    (htree : w'.tree = w.tree.alter (some (.file mode contents)) location)
    (hread : w'.refuses (.read path) = none) : w'.reads path = .ok contents := by
  have hfound : w'.tree.find? location = some (.file mode contents) := by
    rw [htree, Node.find?_alter_self hfind]
  exact World.reads_of_resolve hread (Node.resolve_eq_ok.mpr ⟨hlocate, hfound⟩)

/-- What is read from a path after a file has been processed: the same as before, or the clean text
of what was there. -/
theorem Processed.reads (h : Processed o w path (r, w')) (next : String) :
    w'.reads next = w.reads next ∨ ∃ source, w.reads next = .ok source.toUTF8 ∧
      w'.reads next = .ok (o.clean source).text.toUTF8 := by
  obtain ⟨hrefuses, ⟨hnot, -⟩ | ⟨-, location, mode, source, hfile, -, htree⟩⟩ := h.effect
  · exact .inl (h.confined.reads fun place _ htouched => hnot htouched.1)
  obtain ⟨hlocate, hfind⟩ := Node.resolve_eq_ok.mp hfile
  by_cases hnext : w.tree.locate next = .ok location
  · cases hread : w.refuses (.read next) with
    | some e =>
      refine .inl ?_
      rw [World.reads, World.reads, hrefuses, hread]
    | none =>
      refine .inr ⟨source, ?_, ?_⟩
      · exact World.reads_of_resolve hread (Node.resolve_eq_ok.mpr ⟨hnext, hfind⟩)
      · exact World.reads_alter (by rw [h.confined.locate, hnext]) hfind htree (hrefuses ▸ hread)
  · refine .inl (h.confined.reads fun place hplace htouched => hnext ?_)
    rw [hplace, ← htouched.2, hlocate]

/-- Something can be read, and cleaning leaves it as it is. -/
def Options.Done (o : Options) (contents : Except IoError ByteArray) : Prop :=
  (∃ bytes, contents = .ok bytes) ∧ ∀ source, contents = .ok source.toUTF8 → o.Fixes source

/-- If a text is read, it is enough to clean it once. -/
def Options.Ready (o : Options) (contents : Except IoError ByteArray) : Prop :=
  ∀ source, contents = .ok source.toUTF8 → o.Fixes (o.clean source).text

theorem toUTF8_inj {source text : String}
    (h : (.ok source.toUTF8 : Except IoError ByteArray) = .ok text.toUTF8) : source = text :=
  String.toByteArray_inj.mp (Except.ok.inj h)

/-- Processing another file leaves a path ready. -/
theorem Processed.ready (h : Processed o w path (r, w')) {next : String}
    (hready : o.Ready (w.reads next)) : o.Ready (w'.reads next) := by
  rcases h.reads next with hsame | ⟨source, hread, hclean⟩
  · rwa [hsame]
  · intro text htext
    have hfixes := hready source hread
    obtain rfl := toUTF8_inj (hclean.symm.trans htext)
    rwa [hfixes.same]

/-- Processing another file leaves a path done. -/
theorem Processed.done (h : Processed o w path (r, w')) {next : String}
    (hdone : o.Done (w.reads next)) : o.Done (w'.reads next) := by
  rcases h.reads next with hsame | ⟨source, hread, hclean⟩
  · rwa [hsame]
  · have hfixes := hdone.2 source hread
    rw [hclean, hfixes.same, ← hread]
    exact hdone

/-- **A file that is processed is done**, if it does not fail. -/
theorem Processed.done_self (h : Processed o w path (r, w')) (hdry : o.dryRun = false)
    (hready : o.Ready (w.reads path)) (hfailed : r.isFailed = false) : o.Done (w'.reads path) := by
  cases h with
  | kept hstays hw =>
    rw [hw.reads]
    constructor
    · cases hread : w.reads path with
      | error e =>
        rw [hread] at hfailed
        cases hfailed
      | ok bytes => exact ⟨bytes, rfl⟩
    · intro source hread
      have hsame : (o.clean source).text = source := by
        by_contra hchange
        have hmodified := (o.isModified_judge path (w.reads path)).mpr ⟨source, hread, hchange⟩
        rw [hdry, hmodified] at hstays
        simp at hstays
      have hfixes := hready source hread
      rwa [hsame] at hfixes
  | stored _ hread hfile hchange hw =>
    obtain ⟨hlocate, hfind⟩ := Node.resolve_eq_ok.mp hfile
    have hstored := Processed.stored hdry hread hfile hchange hw
    have hnew := World.reads_alter (by rw [hstored.confined.locate, hlocate]) hfind hw.tree
      (hw.refuses ▸ World.refuses_of_reads hread)
    rw [hnew]
    refine ⟨⟨_, rfl⟩, fun text htext => ?_⟩
    obtain rfl := toUTF8_inj htext
    exact hready _ hread
  | refused => cases hfailed

/-- A file that would not be reported as modified is only read. -/
theorem processFile_idle (h : (o.judge path (w.reads path)).isModified = false) :
    w.gives (processFile o path) = o.judge path (w.reads path) ∧
      w.Alike (w.after (processFile o path)) := by
  obtain ⟨w', hw, hrun⟩ : ∃ w', w.Alike w' ∧
      processFile (m := Session) o path w = (o.judge path (w.reads path), w') := by
    unfold processFile
    rw [World.bind_run (w.read_run path)]
    cases hread : w.reads path with
    | error e => exact ⟨_, (World.Alike.refl w).note _, rfl⟩
    | ok bytes =>
      cases htext : String.fromUTF8? bytes with
      | none =>
        have hskipped : o.judge path (.ok bytes) = { path, outcome := .skipped } := by
          rw [Options.judge, htext]
        rw [hskipped]
        exact ⟨_, (World.Alike.refl w).note _, by simp only [htext]; rfl⟩
      | some source =>
        obtain rfl := toUTF8_of_fromUTF8? htext
        have hsame : (o.clean source).text = source := by
          by_contra hchange
          rw [(o.isModified_judge path (w.reads path)).mpr ⟨source, hread, hchange⟩] at h
          cases h
        have houtcome := o.outcome_judgeText_of_eq path hsame
        simp only [htext]
        rw [processText_run (by rw [if_pos hsame, houtcome]; rfl), o.judge_toUTF8]
        exact ⟨_, (World.Alike.refl w).notes _ _, rfl⟩
  rw [World.gives, World.after, hrun]
  exact ⟨rfl, hw⟩

end File

/-! ### Some files -/

section Files

variable {o : Options} {w : World} {paths : List String}

theorem reshaped_processFiles (o : Options) (w : World) (paths : List String) :
    w.Reshaped (w.after (processFiles o paths)) := by
  induction paths generalizing w with
  | nil => exact .of_alike (.refl w)
  | cons path paths ih =>
    rw [after_processFiles_cons]
    exact (processed_file o w path).reshaped.trans (ih _)

/-- What is done stays done. -/
theorem Options.Done.processFiles {next : String} (h : o.Done (w.reads next))
    (paths : List String) : o.Done ((w.after (processFiles o paths)).reads next) := by
  induction paths generalizing w with
  | nil => exact h
  | cons path paths ih =>
    rw [after_processFiles_cons]
    exact ih ((processed_file o w path).done h)

/-- **A batch in which no file fails leaves every file done.** -/
theorem done_processFiles (hdry : o.dryRun = false)
    (hready : ∀ path ∈ paths, o.Ready (w.reads path))
    (hfailed : ∀ r ∈ w.gives (processFiles o paths), r.isFailed = false) :
    ∀ path ∈ paths, o.Done ((w.after (processFiles o paths)).reads path) := by
  induction paths generalizing w with
  | nil => simp
  | cons first paths ih =>
    have hfirst := processed_file o w first
    rw [gives_processFiles_cons] at hfailed
    rw [after_processFiles_cons]
    rw [List.forall_mem_cons] at hready hfailed ⊢
    constructor
    · exact (hfirst.done_self hdry hready.1 hfailed.1).processFiles paths
    · exact ih (fun path hpath => hfirst.ready (hready.2 path hpath)) hfailed.2

/-- Files that would not be reported as modified are only read. -/
theorem processFiles_idle (h : ∀ path ∈ paths, (o.judge path (w.reads path)).isModified = false) :
    w.gives (processFiles o paths) = paths.map (fun path => o.judge path (w.reads path)) ∧
      w.Alike (w.after (processFiles o paths)) := by
  induction paths generalizing w with
  | nil => exact ⟨rfl, .refl w⟩
  | cons path paths ih =>
    rw [List.forall_mem_cons] at h
    obtain ⟨hgives, hafter⟩ := processFile_idle h.1
    have hsame := hafter.reads
    obtain ⟨hrest, hlast⟩ := ih fun next hnext => by rw [hsame]; exact h.2 next hnext
    rw [gives_processFiles_cons, after_processFiles_cons, hgives, hrest]
    exact ⟨by simp only [hsame, List.map_cons], hafter.trans hlast⟩

end Files

/-! ### Runs -/

namespace Options.Done

variable {o o' : Options} {contents : Except IoError ByteArray} (h : o.Done contents)

include h

theorem isModified_judge (path : String) : (o.judge path contents).isModified = false := by
  rw [Bool.eq_false_iff, Ne, Options.isModified_judge]
  rintro ⟨source, hread, hchange⟩
  exact hchange (h.2 source hread).same

theorem isFailed_judge (path : String) : (o.judge path contents).isFailed = false := by
  rw [Bool.eq_false_iff, Ne, Options.isFailed_judge]
  rintro ⟨e, hread⟩
  obtain ⟨bytes, hbytes⟩ := h.1
  cases hread.symm.trans hbytes

theorem removed_judge (path : String) : (o.judge path contents).stats.removed = 0 := by
  rcases o.judge_cases path contents with ⟨e, -, hj⟩ | ⟨bytes, -, -, hj⟩ | ⟨source, hread, hj⟩
  · rw [hj]
    rfl
  · rw [hj]
    rfl
  · rw [hj]
    exact (h.2 source hread).removed

theorem alike (halike : o.Alike o') : o'.Done contents := by
  refine ⟨h.1, fun source hread => ?_⟩
  obtain ⟨hsame, hremoved⟩ := h.2 source hread
  exact ⟨by rw [halike.clean, hsame], by rw [halike.clean, hremoved]⟩

end Options.Done

theorem removed_foldl {stats : List Stats} (h : ∀ s ∈ stats, s.removed = 0) (start : Stats) :
    (stats.foldl (· + ·) start).removed = start.removed := by
  induction stats generalizing start with
  | nil => rfl
  | cons s stats ih =>
    rw [List.forall_mem_cons] at h
    rw [List.foldl_cons, ih h.2, Scan.removed_add, h.1, Nat.add_zero]

/-- A report on files that were found as they should be. -/
structure Batch.Idle (b : Batch) (paths : List String) : Prop where
  path_files : b.files.map FileReport.path = paths
  modified : b.modified = 0
  failed : b.failed = 0
  removed : b.stats.removed = 0

namespace World

variable {w : World} {o o' : Options} {target : String} {paths : List String}

/-- Every text among the files that a target stands for is steady. -/
def Steady (w : World) (o : Options) (target : String) : Prop :=
  ∀ paths, w.collects o target = .ok paths → ∀ path ∈ paths, ∀ source,
    w.reads path = .ok source.toUTF8 → o.steady source = true

/-- **A run on files that are done changes nothing.** -/
theorem processPath_idle (hcollects : w.collects o target = .ok paths)
    (hdone : ∀ path ∈ paths, o.Done (w.reads path)) :
    (w.after (processPath o target)).tree = w.tree ∧
      ∃ b, w.gives (processPath o target) = .ok b ∧ b.Idle paths := by
  rcases w.processPath_cases o target with
    ⟨failure, hfailure, -, -⟩ | ⟨paths', w', hpaths, hw, hgives, hafter⟩
  · cases hcollects.symm.trans hfailure
  · obtain rfl : paths = paths' := Except.ok.inj (hcollects.symm.trans hpaths)
    have hdone' : ∀ path ∈ paths, o.Done (w'.reads path) := fun path hpath => by
      rw [hw.reads]
      exact hdone path hpath
    obtain ⟨hreports, hidle⟩ := processFiles_idle fun path hpath =>
      (hdone' path hpath).isModified_judge path
    refine ⟨hafter.tree.trans (hidle.tree.trans hw.tree), _, hgives, ?_, ?_, ?_, ?_⟩
    · exact path_processFiles o w' paths
    · rw [hreports, Batch.modified, List.countP_map, List.countP_eq_zero]
      exact fun path hpath => by simp [(hdone' path hpath).isModified_judge]
    · rw [hreports, Batch.failed, List.countP_map, List.countP_eq_zero]
      exact fun path hpath => by simp [(hdone' path hpath).isFailed_judge]
    · rw [hreports, Batch.stats, Stats.total, removed_foldl _ {}]
      · rfl
      · simp only [List.map_map, List.mem_map]
        rintro stats ⟨path, hpath, rfl⟩
        exact (hdone' path hpath).removed_judge path

/-- A run that fails nowhere leaves the files that it collects done, and collects them again. -/
theorem done_processPath (hdry : o.dryRun = false) (hsteady : w.Steady o target) {b : Batch}
    (hb : w.gives (processPath o target) = .ok b) (hfailed : b.failed = 0) :
    (w.after (processPath o target)).collects o target = .ok (b.files.map FileReport.path) ∧
      ∀ path ∈ b.files.map FileReport.path,
        o.Done ((w.after (processPath o target)).reads path) := by
  rcases w.processPath_cases o target with
    ⟨failure, -, hfailure, -⟩ | ⟨paths, w', hpaths, hw, hgives, hafter⟩
  · cases hb.symm.trans hfailure
  · cases Except.ok.inj (hb.symm.trans hgives)
    have hfiles := path_processFiles o w' paths
    have hready : ∀ path ∈ paths, o.Ready (w'.reads path) := by
      intro path hpath source hread
      rw [hw.reads] at hread
      exact Options.fixes_clean (hsteady paths hpaths path hpath source hread)
    have hdone := done_processFiles hdry hready fun r hr => by
      simpa using List.countP_eq_zero.mp hfailed r hr
    have hshape := (Reshaped.of_alike hw).trans ((reshaped_processFiles o w' paths).trans
      (.of_alike hafter))
    rw [hfiles, hshape.collects, hpaths]
    refine ⟨rfl, fun path hpath => ?_⟩
    rw [hafter.reads]
    exact hdone path hpath

end World

/-! ### Commands -/

namespace Command

/-- `strip` succeeds if and only if it gives reports and fails nowhere. -/
theorem exit_stripReport (format : Format) (path : String) (o : Options) (quiet verbose : Bool)
    (b : Batch) : (stripReport format path o quiet verbose b).exit = 0 ↔ b.failed = 0 := by
  have hexit : (if 0 < b.failed then 1 else 0 : Nat) = 0 ↔ b.failed = 0 := by
    by_cases hfailed : 0 < b.failed
    · simpa [hfailed] using Nat.ne_of_gt hfailed
    · simpa [hfailed] using Nat.eq_zero_of_not_pos hfailed
  cases format with
  | json => exact hexit
  | pretty =>
    by_cases hempty : b.files.isEmpty = true
    · simp [stripReport, Batch.failed, List.isEmpty_iff.mp hempty]
    · simp only [stripReport, hempty, if_false, Bool.false_eq_true]
      exact hexit

/-- `check` succeeds where every file is done. -/
theorem exit_check_of_done {w : World} {args : ScanArgs} {target : String} {keep : Retention}
    {paths : List String} (hcollects : w.collects (args.options false keep) target = .ok paths)
    (hdone : ∀ path ∈ paths, (args.options false keep).Done (w.reads path)) (format : Format)
    (verbose : Bool) (input : ByteArray) (quiet : Bool) :
    (w.gives (run format verbose input (.check target quiet args))).exit = 0 := by
  obtain ⟨w', hw, hexit⟩ := exit_check w format verbose input target quiet args
  have halike := args.options_alike false true keep (format.retention quiet verbose)
  rw [hexit]
  rw [← halike.collects, ← hw.collects] at hcollects
  obtain ⟨-, b, hb, hidle⟩ := World.processPath_idle hcollects fun path hpath => by
    rw [hw.reads]
    exact (hdone path hpath).alike halike
  refine ⟨b, hb, fun r hr => ?_, hidle.failed⟩
  simpa using List.countP_eq_zero.mp hidle.modified r hr

/-- **After `strip` has succeeded on steady files, `check` succeeds.** -/
theorem exit_check_after_strip {w : World} {args : ScanArgs} {target : String} {format : Format}
    {verbose quiet : Bool} {input : ByteArray}
    (hsteady : w.Steady (args.options false (format.retention quiet verbose)) target)
    (hexit : (w.gives (run format verbose input (.strip target false quiet args))).exit = 0)
    (format' : Format) (verbose' quiet' : Bool) (input' : ByteArray) :
    ((w.after (run format verbose input (.strip target false quiet args))).gives
      (run format' verbose' input' (.check target quiet' args))).exit = 0 := by
  obtain ⟨w', hw, hafter, hgives⟩ := onBatch_run w target
    (args.options false (format.retention quiet verbose))
    (stripReport format target (args.options false (format.retention quiet verbose)) quiet verbose)
  rw [run, hgives] at hexit
  rw [run, hafter]
  cases hb : w'.gives
      (processPath (args.options false (format.retention quiet verbose)) target) with
  | error failure =>
    rw [hb] at hexit
    cases hexit
  | ok b =>
    rw [hb] at hexit
    have hsteady' : w'.Steady (args.options false (format.retention quiet verbose)) target := by
      intro paths hpaths path hpath source hread
      rw [hw.collects] at hpaths
      rw [hw.reads] at hread
      exact hsteady paths hpaths path hpath source hread
    obtain ⟨hcollects, hdone⟩ := World.done_processPath (args.dryRun_options ..) hsteady' hb
      ((exit_stripReport ..).mp hexit)
    exact exit_check_of_done hcollects hdone format' verbose' input' quiet'

end Command

/-! ### A single file -/

theorem Options.isFailed_judgeText (o : Options) (path source : String) :
    (o.judgeText path source).isFailed = false := by
  rw [← o.judge_toUTF8, Bool.eq_false_iff, Ne, o.isFailed_judge]
  rintro ⟨e, he⟩
  cases he

theorem Options.isModified_judgeText (o : Options) (path source : String) :
    (o.judgeText path source).isModified = false ↔ (o.clean source).text = source := by
  by_cases hsame : (o.clean source).text = source
  · simp [FileReport.isModified, o.outcome_judgeText_of_eq path hsame, hsame]
  · simp [FileReport.isModified, o.outcome_judgeText_of_ne path hsame, hsame]

/-- A world in which nothing is refused and there is one file, with a text. -/
structure World.Holds (w : World) (text : String) : Prop where
  tree : w.tree = .folder [("a.js", .file 0o644 text.toUTF8)]
  refuses : w.refuses = fun _ => none

namespace World.Holds

variable {w : World} {text : String} (h : w.Holds text)

include h

theorem resolve : w.tree.resolve "a.js" = .ok (["a.js"], .file 0o644 text.toUTF8) := by
  have hpieces : Path.pieces "a.js" = ["a.js"] := by decide
  refine Node.resolve_eq_ok.mpr ⟨?_, by rw [h.tree]; rfl⟩
  have hstep : w.tree.advance Node.maxLinks [] "a.js" = .ok (Node.maxLinks, ["a.js"], []) := by
    rw [h.tree]
    rfl
  rw [Node.locate, if_neg (by decide), if_neg (by decide), if_neg (by simp), hpieces,
    Node.follow_cons, hstep]
  simp only [List.nil_append]
  rw [Node.follow]

theorem reads : w.reads "a.js" = .ok text.toUTF8 :=
  World.reads_of_resolve (by rw [h.refuses]) h.resolve

theorem collects (o : Options) : w.collects o "a.js" = .ok ["a.js"] := by
  rw [World.collects, surveys, h.refuses, h.resolve]

theorem steady {o : Options} (htext : o.steady text = true) : w.Steady o "a.js" := by
  intro paths hpaths path hpath source hread
  obtain rfl : ["a.js"] = paths := Except.ok.inj ((h.collects o).symm.trans hpaths)
  obtain rfl := List.mem_singleton.mp hpath
  obtain rfl := toUTF8_inj (h.reads.symm.trans hread)
  exact htext

theorem writable : w.Writable := fun action _ => by rw [h.refuses]

theorem alike {w' : World} (hw : w.Alike w') : w'.Holds text :=
  ⟨hw.tree.trans h.tree, hw.refuses.trans h.refuses⟩

theorem report {o : Options} {r : FileReport} {w' : World}
    (hprocessed : Processed o w "a.js" (r, w')) : r = o.judgeText "a.js" text := by
  have hreport := hprocessed.report_eq (.inr h.writable)
  rwa [h.reads, o.judge_toUTF8] at hreport

/-- A run that stores gives the file its clean text. -/
theorem processed {o : Options} (hdry : o.dryRun = false) {r : FileReport} {w' : World}
    (hprocessed : Processed o w "a.js" (r, w')) : w'.Holds (o.clean text).text := by
  obtain ⟨hrefuses, ⟨hnot, htree⟩ | ⟨-, location, mode, source, hfile, -, htree⟩⟩ :=
    hprocessed.effect
  · have hsame : (o.clean text).text = text := by
      by_contra hchange
      rw [FileReport.Stored, h.report hprocessed, o.outcome_judgeText_of_ne _ hchange,
        hdry] at hnot
      exact hnot ⟨_, rfl⟩
    rw [hsame]
    exact ⟨htree.trans h.tree, hrefuses.trans h.refuses⟩
  · rw [h.resolve] at hfile
    injection hfile with hfile
    injection hfile with hlocation hnode
    injection hnode with hmode hcontents
    obtain rfl := String.toByteArray_inj.mp hcontents
    refine ⟨?_, hrefuses.trans h.refuses⟩
    rw [htree, ← hlocation, ← hmode, h.tree]
    rfl

theorem gives_processPath (o : Options) :
    w.gives (processPath o "a.js") = .ok ⟨[o.judgeText "a.js" text]⟩ := by
  rcases w.processPath_cases o "a.js" with
    ⟨failure, hfailure, -⟩ | ⟨paths, w', hpaths, hw, hgives, -⟩
  · cases (h.collects o).symm.trans hfailure
  · obtain rfl : ["a.js"] = paths := Except.ok.inj ((h.collects o).symm.trans hpaths)
    rw [hgives, gives_processFiles_cons, (h.alike hw).report (processed_file o w' "a.js")]
    rfl

theorem after_processPath {o : Options} (hdry : o.dryRun = false) :
    (w.after (processPath o "a.js")).Holds (o.clean text).text := by
  rcases w.processPath_cases o "a.js" with
    ⟨failure, hfailure, -, -⟩ | ⟨paths, w', hpaths, hw, -, hafter⟩
  · cases (h.collects o).symm.trans hfailure
  · obtain rfl : ["a.js"] = paths := Except.ok.inj ((h.collects o).symm.trans hpaths)
    exact ((h.alike hw).processed hdry (processed_file o w' "a.js")).alike hafter

/-- `strip` succeeds and gives the file its clean text. -/
theorem strip (format : Format) (verbose quiet : Bool) (input : ByteArray) (args : ScanArgs) :
    (w.gives (Command.run format verbose input (.strip "a.js" false quiet args))).exit = 0 ∧
      (w.after (Command.run format verbose input (.strip "a.js" false quiet args))).Holds
        ((args.options false (format.retention quiet verbose)).clean text).text := by
  obtain ⟨w', hw, hafter, hgives⟩ := Command.onBatch_run w "a.js"
    (args.options false (format.retention quiet verbose))
    (Command.stripReport format "a.js" (args.options false (format.retention quiet verbose)) quiet
      verbose)
  rw [Command.run, hgives, hafter, (h.alike hw).gives_processPath, Command.exit_stripReport]
  refine ⟨?_, (h.alike hw).after_processPath (args.dryRun_options ..)⟩
  simp [Batch.failed, Options.isFailed_judgeText]

/-- `check` succeeds if and only if the text is clean. -/
theorem check (format : Format) (verbose quiet : Bool) (input : ByteArray) (args : ScanArgs) :
    (w.gives (Command.run format verbose input (.check "a.js" quiet args))).exit = 0 ↔
      ((args.options true (format.retention quiet verbose)).clean text).text = text := by
  obtain ⟨w', hw, hexit⟩ := Command.exit_check w format verbose input "a.js" quiet args
  rw [hexit, (h.alike hw).gives_processPath]
  simp [Batch.failed, Options.isFailed_judgeText, Options.isModified_judgeText]

end World.Holds

/-- **A second run changes nothing.** Cleaning the clean text of a steady source changes nothing and
finds no comment. If a run fails nowhere, and the texts that it cleans are steady, then a second run
reports on the same files, none of them modified, and leaves the tree as it is; and after `strip`
has succeeded, `check` does. -/
theorem second_run_idle :
    (∀ (o : Options) (source : String), o.steady source = true →
      (o.clean (o.clean source).text).text = (o.clean source).text ∧
        (o.clean (o.clean source).text).stats.removed = 0) ∧
    (∀ (w : World) (o : Options) (target : String) (b : Batch), o.dryRun = false →
      w.Steady o target → w.gives (processPath o target) = .ok b → b.failed = 0 →
      ((w.after (processPath o target)).after (processPath o target)).tree =
          (w.after (processPath o target)).tree ∧
        ∃ b', (w.after (processPath o target)).gives (processPath o target) = .ok b' ∧
          b'.Idle (b.files.map FileReport.path)) ∧
    ∀ (w : World) (args : ScanArgs) (target : String) (format format' : Format)
      (verbose verbose' quiet quiet' : Bool) (input input' : ByteArray),
      w.Steady (args.options false (format.retention quiet verbose)) target →
      (w.gives (Command.run format verbose input (.strip target false quiet args))).exit = 0 →
      ((w.after (Command.run format verbose input (.strip target false quiet args))).gives
        (Command.run format' verbose' input' (.check target quiet' args))).exit = 0 := by
  refine ⟨fun o source h => ?_, fun w o target b hdry hsteady hb hfailed => ?_, ?_⟩
  · obtain ⟨hsame, hremoved⟩ := Options.fixes_clean h
    exact ⟨hsame, hremoved⟩
  · obtain ⟨hcollects, hdone⟩ := World.done_processPath hdry hsteady hb hfailed
    exact World.processPath_idle hcollects hdone
  · intro w args target format format' verbose verbose' quiet quiet' input input' hsteady hexit
    exact Command.exit_check_after_strip hsteady hexit format' verbose' quiet' input'

/-- Regular expressions and divisions after comments, a comment in a template, one with its braces,
and a space at the end of a line. -/
theorem second_run_idle_patterns :
    let source :=
      "p = [ // a\n /b+/,\n];\nx = o.y // c\n / 2 /* d */ / `${ /* e */ 1 }`; \n<b>{/* f */}</b>"
    let w : World := { tree := .folder [("a.js", .file 0o644 source.toUTF8)] }
    ({} : Options).steady source = true ∧ (({} : Options).clean source).text ≠ source ∧
    w.gives (processPath {} "a.js") = .ok ⟨[({} : Options).judgeText "a.js" source]⟩ ∧
    (∃ b, (w.after (processPath {} "a.js")).gives (processPath {} "a.js") = .ok b ∧
      b.Idle ["a.js"]) ∧
    ((w.after (Command.run .pretty false .empty (.strip "a.js" false false {}))).gives
      (Command.run .json false .empty (.check "a.js" false {}))).exit = 0 := by
  intro source w
  have hsteady : ({} : Options).steady source = true := by decide +kernel
  have hholds : w.Holds source := ⟨rfl, rfl⟩
  have hgives := hholds.gives_processPath {}
  obtain ⟨-, hruns, hcommands⟩ := second_run_idle
  refine ⟨hsteady, by decide +kernel, hgives, ?_, ?_⟩
  · refine (hruns w {} "a.js" _ rfl (hholds.steady hsteady) hgives ?_).2
    simp [Batch.failed, Options.isFailed_judgeText]
  · exact hcommands w {} "a.js" .pretty .json false false false false .empty .empty
      (hholds.steady hsteady) (hholds.strip ..).1

/-- A slash after a line comment opens a regular expression, and divides once the comment is gone,
so that a second run finds a comment after it. Cleaning twice also differs where two slashes meet
when braces go, where a backslash takes a line feed along once the space between them is gone, and
where a carriage return so comes to the end of a line. -/
theorem second_run_changes :
    let o : Options := {}
    let source := "a.b//c\n/[/*d*/]/\n"
    let w : World := { tree := .folder [("a.js", .file 0o644 source.toUTF8)] }
    ((o.clean (o.clean source).text).text ≠ (o.clean source).text ∧
      (∃ b, w.gives (processPath o "a.js") = .ok b ∧ b.failed = 0) ∧
      (∃ b, (w.after (processPath o "a.js")).gives (processPath o "a.js") = .ok b ∧
        b.modified = 1) ∧
      ((w.after (Command.run .pretty false .empty (.strip "a.js" false false {}))).gives
        (Command.run .json false .empty (.check "a.js" false {}))).exit ≠ 0) ∧
    (o.clean (o.clean "a.b/{/*c*/}/d\n").text).text ≠ (o.clean "a.b/{/*c*/}/d\n").text ∧
    (o.clean (o.clean "'\\ \n'//'\n").text).text ≠ (o.clean "'\\ \n'//'\n").text ∧
    (o.clean (o.clean "a\r \nb\n").text).text ≠ (o.clean "a\r \nb\n").text := by
  intro o source w
  have hchange : (o.clean (o.clean source).text).text ≠ (o.clean source).text := by decide +kernel
  have hholds : w.Holds source := ⟨rfl, rfl⟩
  have hagain := (hholds.after_processPath (o := o) rfl).gives_processPath o
  refine ⟨⟨hchange, ⟨_, hholds.gives_processPath o, ?_⟩, ⟨_, hagain, ?_⟩, ?_⟩, by decide +kernel⟩
  · simp [Batch.failed, Options.isFailed_judgeText]
  · have hmodified := mt (o.isModified_judgeText "a.js" _).mp hchange
    simpa [Batch.modified] using hmodified
  · rw [Ne, (hholds.strip ..).2.check]
    exact hchange

end Uncomment
