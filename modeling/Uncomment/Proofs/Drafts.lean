/-
# Replacing a file through a draft

A file is replaced in steps, each of which the machine may refuse: a draft is made under a free
name beside the file, filled, stored, given the access rights of the file, and put in its place.
Whatever is refused, the tree ends as it was or with the file holding its new text, its access
rights kept: a draft that is given up is removed, and the place that it had is free again.

Key definitions: `World.gives`, `World.after`, `World.Writable`, `World.Leads`. Main statement:
`World.replaceFile_leads`.
-/
import Uncomment.Disk.World
import Uncomment.Process
import Uncomment.Proofs.Places

namespace Uncomment

open Node (child?)

/-- Whether an action is part of writing a file. -/
def Action.writes : Action → Bool
  | .survey _ => false
  | .read _ => false
  | _ => true

namespace World

/-! ### Results and worlds -/

/-- What an activity gives in a world. -/
def gives {α : Type} (w : World) (x : Session α) : α := (x w).1

/-- The world after an activity. -/
def after {α : Type} (w : World) (x : Session α) : World := (x w).2

section Monad

variable {α β : Type} (w : World)

@[simp]
theorem gives_bind (x : Session α) (f : α → Session β) :
    w.gives (x >>= f) = (w.after x).gives (f (w.gives x)) := rfl

@[simp]
theorem after_bind (x : Session α) (f : α → Session β) :
    w.after (x >>= f) = (w.after x).after (f (w.gives x)) := rfl

theorem bind_run {w w' : World} {x : Session α} {a : α} (h : x w = (a, w')) {f : α → Session β} :
    (x >>= f) w = f a w' := by
  change f (x w).1 (x w).2 = _
  rw [h]

end Monad

/-- Nothing that is part of writing a file is refused. -/
def Writable (w : World) : Prop := ∀ action, action.writes = true → w.refuses action = none

/-- An activity comes about and leads to another world; or it fails and does nothing, which is
only so if something is refused. -/
def Leads (w : World) (x : Session (Except IoError Unit)) (w' : World) : Prop :=
  x w = (.ok (), w') ∨ ∃ e, x w = (.error e, w) ∧ ¬ w.Writable

theorem attempt_cases {α : Type} (w w' : World) (action : Action) (hwrites : action.writes = true)
    (a : α) :
    w.attempt action (.ok (a, w')) = (.ok a, w') ∨
      ∃ e, w.attempt action (.ok (a, w')) = (.error e, w) ∧ ¬ w.Writable := by
  unfold attempt
  cases hrefuses : w.refuses action with
  | none => exact Or.inl rfl
  | some e =>
    refine Or.inr ⟨e, rfl, ?_⟩
    intro h
    rw [h action hwrites] at hrefuses
    cases hrefuses

/-- What holds after the rest of some steps from the next world, and after a failure, holds after
all of them. -/
theorem Leads.andThen {w w' : World} {x : Session (Except IoError Unit)} (h : w.Leads x w')
    {next : Unit → ExceptT IoError Session Unit} {ends : Except IoError Unit × World → Prop}
    (hnext : ends ((next ()).run w')) (hfailed : ∀ e, ¬ w.Writable → ends (.error e, w)) :
    ends ((ExceptT.mk x >>= next).run w) := by
  change ends (ExceptT.bindCont next (x w).1 (x w).2)
  rcases h with h | ⟨e, h, hw⟩
  · rw [h]
    exact hnext
  · rw [h]
    exact hfailed e hw

/-! ### The draft of a file -/

theorem flush_leads (w : World) (d : TreeDraft) : w.Leads (Host.flush (m := Session) d) w :=
  attempt_cases w w (.flush d) rfl ()

/-- A draft has a free name in the folder of its file. -/
inductive Drafting (w : World) (mode : Nat) (old : ByteArray) : TreeDraft → Prop
  | beside {dir : Location} {base name : String} {entries : List (String × Node)}
    (hdir : w.tree.find? dir = some (.folder entries))
    (hbase : child? base entries = some (.file mode old)) (hfree : child? name entries = none) :
    Drafting w mode old ⟨dir ++ [base], dir ++ [name]⟩

/-- The world with a draft in it. -/
def withDraft (w : World) (d : TreeDraft) (mode : Nat) (contents : ByteArray) : World :=
  w.set d.location (some (.file mode contents))

/-- How completing a draft can end: it has taken the place of its file, or it is still there. -/
inductive Completed (w : World) (d : TreeDraft) (mode : Nat) (text : String) :
    Except IoError Unit × World → Prop
  | replaced : Completed w d mode text (.ok (), w.set d.target (some (.file mode text.toUTF8)))
  | givenUp (e : IoError) (m : Nat) (c : ByteArray) (hw : ¬ w.Writable) :
    Completed w d mode text (.error e, w.withDraft d m c)

namespace Drafting

variable {w : World} {d : TreeDraft} {mode : Nat} {old : ByteArray}

theorem fillDraft (h : w.Drafting mode old d) (m : Nat) (c : ByteArray) (text : String) :
    (w.withDraft d m c).fillDraft d text = w.withDraft d m text.toUTF8 := by
  obtain ⟨hdir, hbase, hfree⟩ := h
  unfold World.fillDraft withDraft World.set World.modeAt
  simp only [Node.find?_alter_concat_self hdir, Node.alter_alter_concat hdir]

theorem protectDraft (h : w.Drafting mode old d) (m : Nat) (c : ByteArray) :
    (w.withDraft d m c).protectDraft d = w.withDraft d mode c := by
  obtain @⟨dir, base, name, entries, hdir, hbase, hfree⟩ := h
  have hne : base ≠ name := by
    rintro rfl
    rw [hfree] at hbase
    cases hbase
  have hfile : w.tree.find? (dir ++ [base]) = some (.file mode old) := by
    rw [Node.find?_append, hdir]
    simp [hbase]
  unfold World.protectDraft withDraft World.set World.modeAt
  simp only [Node.find?_alter_concat_self hdir, Node.find?_alter_concat_of_ne hdir hne, hfile,
    Node.alter_alter_concat hdir]

theorem discard (h : w.Drafting mode old d) (m : Nat) (c : ByteArray) :
    (w.withDraft d m c).set d.location none = w := by
  obtain ⟨hdir, hbase, hfree⟩ := h
  unfold withDraft World.set
  simp only [Node.alter_free hdir hfree]

theorem commitDraft (h : w.Drafting mode old d) (m : Nat) (c : ByteArray) :
    (w.withDraft d m c).commitDraft d = w.set d.target (some (.file m c)) := by
  have hdiscard := h.discard m c
  have hfind : (w.withDraft d m c).tree.find? d.location = some (.file m c) := by
    obtain ⟨hdir, hbase, hfree⟩ := h
    exact Node.find?_alter_concat_self hdir ..
  rw [World.commitDraft, hfind]
  simp only [hdiscard]

/-! ### The steps on a draft -/

theorem fill_leads (h : w.Drafting mode old d) (m : Nat) (c : ByteArray) (text : String) :
    (w.withDraft d m c).Leads (Host.fill (m := Session) d text) (w.withDraft d m text.toUTF8) := by
  rw [← h.fillDraft m c]
  rcases attempt_cases (w.withDraft d m c) ((w.withDraft d m c).fillDraft d text) (.fill d text)
    rfl () with hdone | ⟨e, hfailed, hw⟩
  · refine Or.inl ?_
    simp only [Host.fill]
    rw [hdone]
  · refine Or.inr ⟨.concerning e ((w.withDraft d m c).draftPath d), ?_, hw⟩
    simp only [Host.fill]
    rw [hfailed]

theorem protect_leads (h : w.Drafting mode old d) (m : Nat) (c : ByteArray) :
    (w.withDraft d m c).Leads (Host.protect (m := Session) d) (w.withDraft d mode c) := by
  rw [← h.protectDraft m c]
  exact attempt_cases _ _ (.protect d) rfl ()

theorem commit_leads (h : w.Drafting mode old d) (m : Nat) (c : ByteArray) :
    (w.withDraft d m c).Leads (Host.commit (m := Session) d)
      (w.set d.target (some (.file m c))) := by
  rw [← h.commitDraft m c]
  exact attempt_cases _ _ (.commit d) rfl ()

theorem complete (h : w.Drafting mode old d) (m : Nat) (c : ByteArray) (text : String) :
    w.Completed d mode text (completeDraft (m := Session) d text (w.withDraft d m c)) := by
  have hgivenUp (m : Nat) (c : ByteArray) (e : IoError) (hw : ¬ (w.withDraft d m c).Writable) :
      w.Completed d mode text (.error e, w.withDraft d m c) := .givenUp e m c hw
  unfold completeDraft
  refine (h.fill_leads m c text).andThen ?_ (hgivenUp _ _)
  refine (flush_leads _ d).andThen ?_ (hgivenUp _ _)
  refine (h.protect_leads m text.toUTF8).andThen ?_ (hgivenUp _ _)
  change w.Completed d mode text (Host.commit (m := Session) d (w.withDraft d mode text.toUTF8))
  rcases h.commit_leads mode text.toUTF8 with hcommit | ⟨e, hcommit, hw⟩
  · rw [hcommit]
    exact .replaced
  · rw [hcommit]
    exact hgivenUp _ _ e hw

end Drafting

/-! ### Replacing a file -/

/-- The draft of a file is made beside it. -/
theorem openDraft_eq {w : World} {path : String} {location : Location} {mode : Nat}
    {old : ByteArray} (h : w.tree.resolve path = .ok (location, .file mode old)) :
    ∃ d, d.target = location ∧ w.Drafting mode old d ∧
      w.openDraft path = .ok (d, w.withDraft d draftMode .empty) := by
  obtain ⟨hlocate, hfind⟩ := Node.resolve_eq_ok.mp h
  obtain ⟨dir, base, rfl⟩ : ∃ dir base, location = dir ++ [base] :=
    ⟨_, _, (List.dropLast_concat_getLast (Node.ne_nil_of_resolve h)).symm⟩
  rw [Node.find?_append] at hfind
  obtain ⟨node, hdir, hbase⟩ := Option.bind_eq_some_iff.mp hfind
  obtain ⟨entries, file, rfl, hfile, hfound⟩ := Node.exists_child?_of_find? hbase
  obtain rfl : file = .file mode old := by simpa using hfound
  have htaken : w.taken dir = entries.map (·.1) := by rw [taken, hdir]
  let name := w.namer.pick w.events (dir ++ [base]) (w.taken dir)
  have hfree : child? name entries = none := by
    refine Node.child?_eq_none_of_notMem ?_
    rw [← htaken]
    exact w.namer.fresh _ _ _
  refine ⟨⟨dir ++ [base], dir ++ [name]⟩, rfl, .beside hdir hfile hfree, ?_⟩
  rw [openDraft, hlocate]
  simp only [freshLocation, List.dropLast_concat]
  rfl

/-- **A file is replaced as a whole or not at all.** -/
theorem replaceFile_leads {w : World} {path : String} {location : Location} {mode : Nat}
    {old : ByteArray} (h : w.tree.resolve path = .ok (location, .file mode old)) (text : String) :
    w.Leads (replaceFile path text) (w.set location (some (.file mode text.toUTF8))) := by
  obtain ⟨d, rfl, hdrafting, hopen⟩ := openDraft_eq h
  have hdraft : Host.draft (m := Session) path w =
      w.attempt (.draft path) (.ok (d, w.withDraft d draftMode .empty)) := by
    rw [← hopen]
    rfl
  unfold Leads replaceFile
  rcases attempt_cases w (w.withDraft d draftMode .empty) (.draft path) rfl d with
    hmade | ⟨e, hfailed, hw⟩
  · rw [bind_run (hdraft.trans hmade)]
    have hcomplete := hdrafting.complete draftMode .empty text
    generalize hrun : completeDraft (m := Session) d text (w.withDraft d draftMode .empty) = run
      at hcomplete
    cases hcomplete with
    | replaced => exact Or.inl (bind_run hrun)
    | givenUp e m c hw =>
      refine Or.inr ⟨e, (bind_run hrun).trans ?_, hw⟩
      -- what is left of the draft is removed
      change (_, (w.withDraft d m c).set d.location none) = _
      rw [hdrafting.discard]
  · rw [bind_run (hdraft.trans hfailed)]
    exact Or.inr ⟨e, rfl, hw⟩

end World

end Uncomment
