/-
# What becomes of a file

The report on a file depends on what is read from it, and on whether its new text can be
stored. There are three ways to process a file: nothing is stored, because nothing changed, could
be read or was asked for; the file is replaced; or it was to be replaced and something is refused.
All that is done with files follows from these.

Key definitions: `World.reads`, `Options.judge`, `World.Akin`, `World.Alike`, `Processed`. Main
statement: `processed`.
-/
import Uncomment.Proofs.Drafts

namespace Uncomment

namespace World

/-- What is read from a path. -/
def reads (w : World) (path : String) : Except IoError ByteArray :=
  match w.refuses (.read path) with
  | some e => .error e
  | none => w.contents path

/-- Worlds on one machine, which differ at most in their trees and in what has happened. -/
structure Akin (w w' : World) : Prop where
  name : w'.name = w.name
  refuses : w'.refuses = w.refuses
  namer : w'.namer = w.namer

/-- Worlds that differ at most in the events that were noted. -/
structure Alike (w w' : World) : Prop extends Akin w w' where
  tree : w'.tree = w.tree

section Akin

variable {w w' w'' : World}

theorem Akin.refl (w : World) : w.Akin w := ⟨rfl, rfl, rfl⟩

theorem Akin.trans (h : w.Akin w') (h' : w'.Akin w'') : w.Akin w'' :=
  ⟨h'.name.trans h.name, h'.refuses.trans h.refuses, h'.namer.trans h.namer⟩

theorem akin_set (w : World) (location : Location) (node : Option Node) :
    w.Akin (w.set location node) := ⟨rfl, rfl, rfl⟩

end Akin

namespace Alike

variable {w w' w'' : World}

theorem refl (w : World) : w.Alike w := ⟨.refl w, rfl⟩

theorem trans (h : w.Alike w') (h' : w'.Alike w'') : w.Alike w'' :=
  ⟨h.toAkin.trans h'.toAkin, h'.tree.trans h.tree⟩

theorem note (h : w.Alike w') (e : Event) : w.Alike (w'.after (Host.note e)) :=
  h.trans ⟨⟨rfl, rfl, rfl⟩, rfl⟩

theorem notes {α : Type} (h : w.Alike w') (event : α → Event) (as : List α) :
    w.Alike (w'.after (as.forM fun a => Host.note (event a))) := by
  induction as generalizing w' with
  | nil => exact h
  | cons a as ih => exact ih (h.note (event a))

theorem reads (h : w.Alike w') (path : String) : w'.reads path = w.reads path := by
  unfold World.reads World.contents
  rw [h.refuses, h.tree]

theorem writable (h : w.Alike w') : w'.Writable ↔ w.Writable := by
  unfold Writable
  rw [h.refuses]

end Alike

theorem read_run (w : World) (path : String) :
    Host.read (m := Session) path w = (w.reads path, w) := by
  change w.attempt (.read path) ((w.contents path).map fun bytes => (bytes, w)) = _
  unfold attempt World.reads
  cases w.refuses (.read path) with
  | some e => rfl
  | none => cases w.contents path <;> rfl

/-- Only a file can be read. -/
theorem resolve_of_reads {w : World} {path : String} {bytes : ByteArray}
    (h : w.reads path = .ok bytes) :
    ∃ location mode, w.tree.resolve path = .ok (location, .file mode bytes) := by
  unfold reads contents at h
  split at h
  · cases h
  · split at h
    · cases h
    · next location mode contents hresolve =>
      cases h
      exact ⟨location, mode, hresolve⟩
    · cases h

theorem reads_of_resolve {w : World} {path : String} {location : Location} {mode : Nat}
    {bytes : ByteArray} (hread : w.refuses (.read path) = none)
    (hfile : w.tree.resolve path = .ok (location, .file mode bytes)) :
    w.reads path = .ok bytes := by
  rw [reads, hread, contents, hfile]

end World

theorem fromUTF8?_toUTF8 (text : String) : String.fromUTF8? text.toUTF8 = some text := by
  unfold String.fromUTF8?
  exact dif_pos text.isValidUTF8

/-- Bytes that are a text are the bytes of that text. -/
theorem toUTF8_of_fromUTF8? {bytes : ByteArray} {text : String}
    (h : String.fromUTF8? bytes = some text) : text.toUTF8 = bytes := by
  unfold String.fromUTF8? at h
  split at h
  · cases h
    rfl
  · cases h

/-- The report on a file that holds a text, unless its new text cannot be stored. -/
def Options.judgeText (o : Options) (path source : String) : FileReport :=
  let cleaned := o.clean source
  { path
    outcome :=
      if cleaned.text = source then .unchanged
      else .modified (source.utf8ByteSize - cleaned.text.utf8ByteSize) (!o.dryRun)
    stats := cleaned.stats
    diagnostics := cleaned.diagnostics
    source :=
      if o.keepSource.wants (cleaned.diagnostics.map (·.severity)) then some source else none }

/-- The report on a file from which something is read, unless its new text cannot be stored. -/
def Options.judge (o : Options) (path : String) : Except IoError ByteArray → FileReport
  | .error e => { path, outcome := .failed (.read path e) }
  | .ok bytes =>
    match String.fromUTF8? bytes with
    | none => { path, outcome := .skipped }
    | some source => o.judgeText path source

theorem Options.judge_toUTF8 (o : Options) (path source : String) :
    o.judge path (.ok source.toUTF8) = o.judgeText path source := by
  rw [judge, fromUTF8?_toUTF8]

theorem Options.outcome_judgeText_of_eq (o : Options) (path : String) {source : String}
    (h : (o.clean source).text = source) : (o.judgeText path source).outcome = .unchanged :=
  if_pos h

theorem Options.outcome_judgeText_of_ne (o : Options) (path : String) {source : String}
    (h : (o.clean source).text ≠ source) :
    (o.judgeText path source).outcome =
      .modified (source.utf8ByteSize - (o.clean source).text.utf8ByteSize) (!o.dryRun) :=
  if_neg h

/-- A file cannot be read, does not hold a text, or is judged by its text. -/
theorem Options.judge_cases (o : Options) (path : String) (contents : Except IoError ByteArray) :
    (∃ e, contents = .error e ∧
      o.judge path contents = { path, outcome := .failed (.read path e) }) ∨
    (∃ bytes, contents = .ok bytes ∧ String.fromUTF8? bytes = none ∧
      o.judge path contents = { path, outcome := .skipped }) ∨
    ∃ source, contents = .ok source.toUTF8 ∧ o.judge path contents = o.judgeText path source := by
  cases contents with
  | error e => exact Or.inl ⟨e, rfl, rfl⟩
  | ok bytes =>
    cases htext : String.fromUTF8? bytes with
    | none => exact Or.inr (Or.inl ⟨bytes, rfl, htext, by rw [judge, htext]⟩)
    | some source =>
      refine Or.inr (Or.inr ⟨source, ?_, by rw [judge, htext]⟩)
      rw [toUTF8_of_fromUTF8? htext]

theorem Options.path_judge (o : Options) (path : String) (contents : Except IoError ByteArray) :
    (o.judge path contents).path = path := by
  rcases o.judge_cases path contents with ⟨e, -, h⟩ | ⟨bytes, -, -, h⟩ | ⟨source, -, h⟩
  · rw [h]
  · rw [h]
  · rw [h]
    rfl

/-- A file is reported as modified if cleaning changes its text. -/
theorem Options.outcome_judge_eq_modified (o : Options) {path : String}
    {contents : Except IoError ByteArray} {n : Nat} {written : Bool}
    (h : (o.judge path contents).outcome = .modified n written) :
    written = !o.dryRun ∧
      ∃ source, contents = .ok source.toUTF8 ∧ (o.clean source).text ≠ source := by
  rcases o.judge_cases path contents with ⟨e, -, hj⟩ | ⟨bytes, -, -, hj⟩ | ⟨source, hsource, hj⟩
  · rw [hj] at h
    cases h
  · rw [hj] at h
    cases h
  · rw [hj] at h
    by_cases hchange : (o.clean source).text = source
    · rw [o.outcome_judgeText_of_eq path hchange] at h
      cases h
    · rw [o.outcome_judgeText_of_ne path hchange] at h
      cases h
      exact ⟨rfl, source, hsource, hchange⟩

theorem Options.isModified_judge (o : Options) (path : String)
    (contents : Except IoError ByteArray) :
    (o.judge path contents).isModified = true ↔
      ∃ source, contents = .ok source.toUTF8 ∧ (o.clean source).text ≠ source := by
  constructor
  · intro h
    unfold FileReport.isModified at h
    split at h
    · next n written houtcome => exact (o.outcome_judge_eq_modified houtcome).2
    · cases h
  · rintro ⟨source, rfl, hchange⟩
    rw [o.judge_toUTF8, FileReport.isModified, o.outcome_judgeText_of_ne path hchange]

theorem Options.isFailed_judge (o : Options) (path : String) (contents : Except IoError ByteArray) :
    (o.judge path contents).isFailed = true ↔ ∃ e, contents = .error e := by
  constructor
  · intro h
    rcases o.judge_cases path contents with ⟨e, he, -⟩ | ⟨bytes, -, -, hj⟩ | ⟨source, -, hj⟩
    · exact ⟨e, he⟩
    · rw [hj] at h
      cases h
    · rw [hj, FileReport.isFailed] at h
      by_cases hchange : (o.clean source).text = source
      · rw [o.outcome_judgeText_of_eq path hchange] at h
        cases h
      · rw [o.outcome_judgeText_of_ne path hchange] at h
        cases h
  · rintro ⟨e, rfl⟩
    rfl

/-- The ways to process a file. -/
inductive Processed (o : Options) (w : World) (path : String) : FileReport × World → Prop
  /-- Nothing is to be stored. -/
  | kept {w' : World} (hstays : o.dryRun = true ∨ (o.judge path (w.reads path)).isModified = false)
    (hw : w.Alike w') : Processed o w path (o.judge path (w.reads path), w')
  /-- The file is replaced. -/
  | stored {w' : World} {location : Location} {mode : Nat} {source : String}
    (hdry : o.dryRun = false) (hread : w.reads path = .ok source.toUTF8)
    (hfile : w.tree.resolve path = .ok (location, .file mode source.toUTF8))
    (hchange : (o.clean source).text ≠ source)
    (hw : (w.set location (some (.file mode (o.clean source).text.toUTF8))).Alike w') :
    Processed o w path (o.judge path (w.reads path), w')
  /-- The file was to be replaced, but could not be. -/
  | refused {w' : World} {e : IoError} (hdry : o.dryRun = false) (hrefused : ¬ w.Writable)
    (hw : w.Alike w') : Processed o w path ({ path, outcome := .failed (.write path e) }, w')

section

variable {w : World} {path : String} {location : Location} {mode : Nat}

/-- The text of a file is stored, or something is refused. -/
theorem saveChange_cases {o : Options} (hdry : o.dryRun = false) {old : ByteArray}
    (hfile : w.tree.resolve path = .ok (location, .file mode old)) (source text : String) :
    ∃ w', (w.set location (some (.file mode text.toUTF8))).Alike w' ∧
        saveChange (m := Session) o path source text w =
          (.modified (source.utf8ByteSize - text.utf8ByteSize) (!o.dryRun), w') ∨
      ∃ e, ¬ w.Writable ∧ w.Alike w' ∧
        saveChange (m := Session) o path source text w = (.failed (.write path e), w') := by
  unfold saveChange
  simp only [hdry, Bool.false_eq_true, if_false]
  rcases World.replaceFile_leads hfile text with hdone | ⟨e, hfailed, hw⟩
  · exact ⟨_, Or.inl ⟨(World.Alike.refl _).note _, World.bind_run hdone⟩⟩
  · exact ⟨_, Or.inr ⟨e, hw, (World.Alike.refl _).note _, World.bind_run hfailed⟩⟩

/-- Once a text is stored, or need not be, the report is made and the diagnostics are noted. -/
theorem processText_run {o : Options} {source : String} {w' : World}
    (h : (if (o.clean source).text = source then pure .unchanged
      else saveChange o path source (o.clean source).text : Session Outcome) w =
        ((o.judgeText path source).outcome, w')) :
    processText (m := Session) o path source w = (o.judgeText path source,
      w'.after ((o.clean source).diagnostics.forM fun d => Host.note (.diagnosed path d))) := by
  unfold processText Options.judgeText
  rw [Options.judgeText] at h
  by_cases hchange : (o.clean source).text = source
  · simp only [hchange, if_true] at h ⊢
    rw [World.bind_run h]
    rfl
  · simp only [hchange, if_false] at h ⊢
    rw [World.bind_run h]
    rfl

/-- A file that holds a text is processed in one of the ways. -/
theorem processed_text (o : Options) {source : String} (hread : w.reads path = .ok source.toUTF8)
    (hfile : w.tree.resolve path = .ok (location, .file mode source.toUTF8)) :
    Processed o w path (processText (m := Session) o path source w) := by
  have hjudge : o.judge path (w.reads path) = o.judgeText path source := by
    rw [hread, Options.judge_toUTF8]
  by_cases hchange : (o.clean source).text = source
  · have houtcome := o.outcome_judgeText_of_eq path hchange
    rw [processText_run (by rw [if_pos hchange, houtcome]; rfl), ← hjudge]
    refine .kept (Or.inr ?_) ((World.Alike.refl w).notes _ _)
    rw [hjudge, FileReport.isModified, houtcome]
  have houtcome := o.outcome_judgeText_of_ne path hchange
  cases hdry : o.dryRun with
  | true =>
    rw [processText_run (by rw [if_neg hchange, houtcome, saveChange, hdry]; rfl), ← hjudge]
    exact .kept (Or.inl hdry) (((World.Alike.refl w).note _).notes _ _)
  | false =>
    obtain ⟨w', ⟨hw, hrun⟩ | ⟨e, hrefused, hw, hrun⟩⟩ :=
      saveChange_cases hdry hfile source (o.clean source).text
    · rw [processText_run (by rw [if_neg hchange, houtcome]; exact hrun), ← hjudge]
      exact .stored hdry hread hfile hchange (hw.notes _ _)
    · unfold processText
      simp only [hchange, if_false]
      rw [World.bind_run hrun]
      exact .refused hdry hrefused hw

end

/-- **Processing a file comes out in one of these ways.** -/
theorem processed (o : Options) (path : String) (w : World) :
    Processed o w path (processFile (m := Session) o path w) := by
  have hkept {w' : World} (hstays : (o.judge path (w.reads path)).isModified = false)
      (hw : w.Alike w') : Processed o w path (o.judge path (w.reads path), w') :=
    .kept (Or.inr hstays) hw
  unfold processFile
  rw [World.bind_run (w.read_run path)]
  cases hread : w.reads path with
  | error e =>
    rw [hread] at hkept
    exact hkept rfl ((World.Alike.refl w).note _)
  | ok bytes =>
    cases htext : String.fromUTF8? bytes with
    | none =>
      have hskipped : o.judge path (w.reads path) = { path, outcome := .skipped } := by
        rw [hread, Options.judge, htext]
      rw [hskipped] at hkept
      simp only [htext]
      exact hkept rfl ((World.Alike.refl w).note _)
    | some source =>
      obtain ⟨location, mode, hfile⟩ := World.resolve_of_reads hread
      rw [← toUTF8_of_fromUTF8? htext] at hread hfile
      simp only [htext]
      exact processed_text o hread hfile

end Uncomment
