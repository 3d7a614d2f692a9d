/-
# Any order of work

The files of a batch may be processed at the same time, with their steps in any order: each gets
the report that it would have got alone, in the order of the batch, and the tree ends as if they had
been processed one after the other. A file that fails or is skipped makes no difference to the
others. The paths have to lead to different files, which those that are collected in a folder always
do; and a path that leads nowhere must not do so for want of a draft.

Key definitions: `Shadow.Mirrors`, `Pool.Shared`. Main statements: `Shared.step`,
`batch_order_independent`.
-/
import Uncomment.Proofs.Agreement
import Uncomment.Proofs.Shadows

namespace Uncomment

open Relation (ReflTransGen)

/-! ### Requests in the shared world -/

namespace World

variable {w w' : World} {d : TreeDraft} {mode : Nat} {old : ByteArray}

theorem attempt_refused {α : Type} {action : Action} {e : IoError}
    (h : w.refuses action = some e) (outcome : Except IoError (α × World)) :
    w.attempt action outcome = (.error e, w) := by
  unfold attempt
  rw [h]

theorem attempt_allowed {α : Type} {action : Action} (h : w.refuses action = none) (a : α)
    (w' : World) : w.attempt action (.ok (a, w')) = (.ok a, w') := by
  unfold attempt
  rw [h]

theorem Drafting.congr (h : w.Drafting mode old d) (htree : w'.tree = w.tree) :
    w'.Drafting mode old d := by
  obtain ⟨hdir, hbase, hfree⟩ := h
  rw [← htree] at hdir
  exact ⟨hdir, hbase, hfree⟩

theorem Drafting.unnamed (h : w.Drafting mode old d) :
    d.unnamed = ⟨d.target, d.target.dropLast⟩ := by
  obtain ⟨hdir, hbase, hfree⟩ := h
  simp [TreeDraft.unnamed]

theorem tree_fillDraft {m : Nat} {c : ByteArray} (h : w.tree.find? d.location = some (.file m c))
    (text : String) :
    (w.fillDraft d text).tree = w.tree.alter (some (.file m text.toUTF8)) d.location := by
  unfold fillDraft modeAt
  rw [h]
  rfl

theorem tree_protectDraft {m : Nat} {c : ByteArray}
    (h : w.tree.find? d.location = some (.file m c))
    (htarget : w.tree.find? d.target = some (.file mode old)) :
    (w.protectDraft d).tree = w.tree.alter (some (.file mode c)) d.location := by
  unfold protectDraft modeAt
  rw [h, htarget]
  rfl

theorem tree_commitDraft {node : Node} (h : w.tree.find? d.location = some node) :
    (w.commitDraft d).tree = (w.tree.alter none d.location).alter (some node) d.target := by
  unfold commitDraft
  rw [h]
  rfl

end World

namespace Stage

/-- The action that the machine may refuse. -/
def action (d : TreeDraft) : Stage → Action
  | fill text => .fill d text
  | flush => .flush d
  | protect => .protect d
  | commit => .commit d

/-- The world afterwards, unless the action is refused. -/
def effect (w : World) (d : TreeDraft) : Stage → World
  | fill text => w.fillDraft d text
  | flush => w
  | protect => w.protectDraft d
  | commit => w.commitDraft d

/-- How a refusal is put. -/
def fault (draft : String) (e : IoError) : Stage → IoError
  | fill _ => .concerning e draft
  | _ => e

theorem perform_refused {w : World} {d : TreeDraft} {stage : Stage} {e : IoError}
    (h : w.refuses (stage.action d) = some e) :
    stage.perform d w = (.error (stage.fault (w.draftPath d) e), w) := by
  cases stage with
  | fill text =>
    have hfill : w.refuses (.fill d text) = some e := h
    simp only [perform, Host.fill]
    rw [World.attempt_refused hfill, fault]
  | flush => exact World.attempt_refused h (.ok ((), w))
  | protect => exact World.attempt_refused h (.ok ((), w.protectDraft d))
  | commit => exact World.attempt_refused h (.ok ((), w.commitDraft d))

theorem perform_allowed {w : World} {d : TreeDraft} {stage : Stage}
    (h : w.refuses (stage.action d) = none) : stage.perform d w = (.ok (), stage.effect w d) := by
  cases stage with
  | fill text =>
    have hfill : w.refuses (.fill d text) = none := h
    simp only [perform, Host.fill]
    rw [World.attempt_allowed hfill, effect]
  | flush => exact World.attempt_allowed h () w
  | protect => exact World.attempt_allowed h () (w.protectDraft d)
  | commit => exact World.attempt_allowed h () (w.commitDraft d)

theorem akin_effect (w : World) (d : TreeDraft) (stage : Stage) :
    w.Akin (stage.effect w d) := by
  cases stage with
  | fill text => exact w.akin_set _ _
  | flush => exact .refl w
  | protect =>
    simp only [effect, World.protectDraft]
    split
    · exact w.akin_set _ _
    · exact .refl w
  | commit =>
    simp only [effect, World.commitDraft]
    split
    · exact (w.akin_set _ _).trans (World.akin_set _ _ _)
    · exact .refl w

theorem unnamed_action {mine twin : TreeDraft} (h : twin.unnamed = mine.unnamed) (stage : Stage) :
    (stage.action twin).unnamed = (stage.action mine).unnamed := by
  cases stage <;> simp only [action, Action.unnamed, h]

end Stage

/-! ### A task and its shadow -/

/-- A shadow makes the requests of a task, and ends as processing its file alone does. -/
structure Shadow.Mirrors (o : Options) (w : World) (s : Shadow) (t : Task FileReport) : Prop where
  twins : Twins s.path s.phase s.task t
  akin : w.Akin s.world
  run : s.task.run s.world = processFile (m := Session) o s.path w

section Turn

variable {o : Options} {w shared : World} {front back : List Shadow} {path : String}

/-- A shadow goes along with its task: both have a request performed. -/
theorem exists_shadow {phase phase' : Phase} {world world' shared' : World} {r r₀ : Request}
    {next : r.Reply → Task FileReport} {next₀ : r₀.Reply → Task FileReport} {reply : r.Reply}
    {reply₀ : r₀.Reply}
    (hs : Shadow.Mirrors o w ⟨path, phase, .ask r₀ next₀, world⟩ (.ask r next))
    (hrun₀ : r₀.perform world = (reply₀, world')) (hrun : r.perform shared = (reply, shared'))
    (htwins : Twins path phase' (next₀ reply₀) (next reply))
    (hakin : world.Akin world')
    (h : Overlaid w (front ++ ⟨path, phase', next₀ reply₀, world'⟩ :: back) shared') :
    ∃ s' : Shadow, s'.path = path ∧ s'.Mirrors o w (next (shared.gives r.perform)) ∧
      Overlaid w (front ++ s' :: back) (shared.after r.perform) := by
  have hgives : shared.gives r.perform = reply := congrArg Prod.fst hrun
  have hafter : shared.after r.perform = shared' := congrArg Prod.snd hrun
  rw [hgives, hafter]
  refine ⟨_, rfl, ⟨htwins, hs.akin.trans hakin, ?_⟩, h⟩
  have hwas := hs.run
  change (next₀ (r₀.perform world).1).run (r₀.perform world).2 = _ at hwas
  rwa [hrun₀] at hwas

/-- A task that reads its file finds what was there. -/
theorem turn_read {world : World} {next next₀ : Except IoError ByteArray → Task FileReport}
    (hpath : w.Unobstructed path)
    (h : Overlaid w (front ++ ⟨path, .fresh, .ask (.read path) next₀, world⟩ :: back) shared)
    (hs : Shadow.Mirrors o w ⟨path, .fresh, .ask (.read path) next₀, world⟩
      (.ask (.read path) next))
    (hfailed : ∀ e, Twins path .finished (next₀ (.error e)) (next (.error e)))
    (hread : ∀ bytes, Twins path .informed (next₀ (.ok bytes)) (next (.ok bytes))) :
    ∃ s' : Shadow, s'.path = path ∧
      s'.Mirrors o w (next (shared.gives (Request.read path).perform)) ∧
      Overlaid w (front ++ s' :: back) (shared.after (Request.read path).perform) := by
  have hfresh : world.tree = w.tree := by
    have hstanding := h.standing ⟨path, .fresh, .ask (.read path) next₀, world⟩ (by simp)
    generalize htree : world.tree = tree at hstanding
    cases hstanding with
    | fresh => rfl
  have hmine : world.reads path = w.reads path := by
    unfold World.reads World.contents
    rw [hs.akin.refuses, hfresh]
  have hshared : shared.reads path = w.reads path := h.reads_fresh hfresh hpath
  have hrun₀ := world.read_run path
  have hrun := shared.read_run path
  rw [hmine] at hrun₀
  rw [hshared] at hrun
  cases hreads : w.reads path with
  | error e =>
    rw [hreads] at hrun hrun₀
    refine exists_shadow hs hrun₀ hrun (hfailed e) (.refl world) ?_
    refine h.still rfl (.refl shared) (Or.inr ⟨nofun, nofun⟩) ?_ rfl
    rw [hfresh]
    exact .kept
  | ok bytes =>
    rw [hreads] at hrun hrun₀
    obtain ⟨place, mode, hfile⟩ := World.resolve_of_reads hreads
    refine exists_shadow hs hrun₀ hrun (hread bytes) (.refl world) ?_
    refine h.still rfl (.refl shared) (Or.inr ⟨nofun, nofun⟩) ?_ rfl
    rw [hfresh]
    exact .informed hfile

/-- A task that makes a draft may get another name for it than its shadow. -/
theorem turn_draft {world : World} {next next₀ : Except IoError TreeDraft → Task FileReport}
    (hpath : w.Unobstructed path)
    (h : Overlaid w (front ++ ⟨path, .informed, .ask (.draft path) next₀, world⟩ :: back) shared)
    (hs : Shadow.Mirrors o w ⟨path, .informed, .ask (.draft path) next₀, world⟩
      (.ask (.draft path) next))
    (hfailed : ∀ e, Twins path .finished (next₀ (.error e)) (next (.error e)))
    (hmade : ∀ mine twin, Twins path (.writing mine twin) (next₀ (.ok mine)) (next (.ok twin))) :
    ∃ s' : Shadow, s'.path = path ∧
      s'.Mirrors o w (next (shared.gives (Request.draft path).perform)) ∧
      Overlaid w (front ++ s' :: back) (shared.after (Request.draft path).perform) := by
  obtain ⟨hfresh, place, mode, old, hfile⟩ : world.tree = w.tree ∧
      ∃ place mode old, w.tree.resolve path = .ok (place, .file mode old) := by
    have hstanding := h.standing ⟨path, .informed, .ask (.draft path) next₀, world⟩ (by simp)
    generalize htree : world.tree = tree at hstanding
    cases hstanding with
    | informed hfile => exact ⟨rfl, _, _, _, hfile⟩
  have hfile₀ : world.tree.resolve path = .ok (place, .file mode old) := by rw [hfresh, hfile]
  obtain ⟨mine, htarget₀, hmine, hopen₀⟩ := World.openDraft_eq hfile₀
  obtain ⟨twin, htarget, htwin, hopen⟩ := World.openDraft_eq (h.resolve_fresh hfresh hpath hfile)
  have hrun₀ : (Request.draft path).perform world =
      world.attempt (.draft path) (.ok (mine, world.withDraft mine World.draftMode .empty)) := by
    rw [← hopen₀]
    rfl
  have hrun : (Request.draft path).perform shared =
      shared.attempt (.draft path) (.ok (twin, shared.withDraft twin World.draftMode .empty)) := by
    rw [← hopen]
    rfl
  cases hrefused : w.refuses (.draft path) with
  | some e =>
    rw [World.attempt_refused (by rw [hs.akin.refuses, hrefused])] at hrun₀
    rw [World.attempt_refused (by rw [h.akin.refuses, hrefused])] at hrun
    refine exists_shadow hs hrun₀ hrun (hfailed e) (.refl world) ?_
    refine h.still rfl (.refl shared) (Or.inr ⟨nofun, nofun⟩) ?_ rfl
    rw [hfresh]
    exact .kept
  | none =>
    rw [World.attempt_allowed (by rw [hs.akin.refuses, hrefused])] at hrun₀
    rw [World.attempt_allowed (by rw [h.akin.refuses, hrefused])] at hrun
    refine exists_shadow hs hrun₀ hrun (hmade mine twin) (world.akin_set _ _) ?_
    have hoffers := World.offers_openDraft hopen
    rw [h.akin.namer] at hoffers
    refine h.opened nofun ?_ hfresh (hmine.congr hfresh.symm) htwin ?_ hoffers ?_
    · rw [htarget₀]
      exact hfile
    · rw [htwin.unnamed, hmine.unnamed, htarget, htarget₀]
    · change world.tree.alter _ _ = w.tree.alter _ _
      rw [hfresh]

/-! ### Turns of a task that has a draft -/

section Writing

variable {mine twin : TreeDraft} {world : World} {task : Task FileReport}
  (h : Overlaid w (front ++ ⟨path, .writing mine twin, task, world⟩ :: back) shared)

include h

/-- What is known of the drafts of a task and its shadow. -/
theorem writing_cases : ∃ mode m old c,
    w.tree.resolve path = .ok (mine.target, .file mode old) ∧ w.Drafting mode old mine ∧
    twin.unnamed = mine.unnamed ∧ world.tree = (w.withDraft mine m c).tree ∧
    shared.tree.find? twin.location = some (.file m c) ∧
    shared.tree.find? twin.target = some (.file mode old) := by
  have hheld := h.held ⟨path, .writing mine twin, task, world⟩ (by simp) mine twin rfl
  have hstanding := h.standing ⟨path, .writing mine twin, task, world⟩ (by simp)
  simp only at hheld hstanding
  generalize htree : world.tree = tree at hheld hstanding
  cases hstanding with
  | writing hfile hmine hunnamed hplace hfree =>
    have hsame := TreeDraft.target_eq hunnamed
    have htarget := h.find?_file hfile
    simp only at htarget
    refine ⟨_, _, _, _, hfile, hmine, hunnamed, rfl, hheld.trans (hmine.find?_withDraft _ _), ?_⟩
    rw [hsame, htarget, htree, hmine.find?_target]

/-- Both drafts are refused the same, and in the same words. -/
theorem perform_twins (hw : w.Evenhanded) {t : Task FileReport}
    (hs : Shadow.Mirrors o w ⟨path, .writing mine twin, task, world⟩ t) (stage : Stage) :
    (∃ e, stage.perform mine world = (.error e, world) ∧
      stage.perform twin shared = (.error e, shared)) ∨
    stage.perform mine world = (.ok (), stage.effect world mine) ∧
      stage.perform twin shared = (.ok (), stage.effect shared twin) := by
  obtain ⟨mode, m, old, c, -, -, hunnamed, -⟩ := writing_cases h
  have hmine : world.refuses = w.refuses := hs.akin.refuses
  have hrefuses : shared.refuses (stage.action twin) = world.refuses (stage.action mine) := by
    rw [h.akin.refuses, hmine]
    exact hw _ _ (stage.unnamed_action hunnamed)
  have hpath : shared.draftPath twin = world.draftPath mine := by
    have hdir := TreeDraft.dropLast_eq hunnamed
    have hname : world.name = w.name := hs.akin.name
    unfold World.draftPath World.absolute
    rw [hdir, h.akin.name, hname]
  cases hrefused : world.refuses (stage.action mine) with
  | some e =>
    refine Or.inl ⟨_, Stage.perform_refused hrefused, ?_⟩
    rw [Stage.perform_refused (hrefuses.trans hrefused), hpath]
  | none =>
    exact Or.inr ⟨Stage.perform_allowed hrefused, Stage.perform_allowed (hrefuses.trans hrefused)⟩

/-- A turn on a draft at which nothing happens. -/
theorem writing_still {task' : Task FileReport} :
    Overlaid w (front ++ ⟨path, .writing mine twin, task', world⟩ :: back) shared :=
  h.still rfl (.refl shared) (Or.inl rfl)
    (h.standing ⟨path, .writing mine twin, task, world⟩ (by simp)) rfl

/-- What is done with a draft before it is put in the place of its file. -/
theorem writing_effect {stage : Stage} (hstage : stage ≠ .commit) {task' : Task FileReport} :
    Overlaid w (front ++ ⟨path, .writing mine twin, task', stage.effect world mine⟩ :: back)
      (stage.effect shared twin) := by
  obtain ⟨mode, m, old, c, hfile, hmine, hunnamed, hworld, hheld, htarget⟩ := writing_cases h
  have hmine₀ : world.tree.find? mine.location = some (.file m c) := by
    rw [hworld, hmine.find?_withDraft]
  have htarget₀ : world.tree.find? mine.target = some (.file mode old) := by
    rw [hworld, hmine.find?_target]
  have hakin := stage.akin_effect shared twin
  cases stage with
  | fill text =>
    refine h.rewritten rfl hakin hfile hmine hunnamed
      (World.tree_fillDraft hheld text) ?_
    rw [Stage.effect, World.tree_fillDraft hmine₀, hworld,
      ← World.tree_fillDraft (hmine.find?_withDraft m c), hmine.fillDraft]
  | flush => exact writing_still h
  | protect =>
    refine h.rewritten rfl hakin hfile hmine hunnamed
      (World.tree_protectDraft hheld htarget) ?_
    rw [Stage.effect, World.tree_protectDraft hmine₀ htarget₀, hworld,
      ← World.tree_protectDraft (hmine.find?_withDraft m c) (hmine.find?_target m c),
      hmine.protectDraft]
  | commit => exact absurd rfl hstage

theorem commit_effect {task' : Task FileReport} :
    Overlaid w (front ++ ⟨path, .finished, task', world.commitDraft mine⟩ :: back)
      (shared.commitDraft twin) := by
  obtain ⟨mode, m, old, c, hfile, hmine, hunnamed, hworld, hheld, htarget⟩ := writing_cases h
  have hmine₀ : world.tree.find? mine.location = some (.file m c) := by
    rw [hworld, hmine.find?_withDraft]
  have hsame := TreeDraft.target_eq hunnamed
  have hakin := Stage.commit.akin_effect shared twin
  have hshared : (shared.commitDraft twin).tree =
      (shared.tree.alter none twin.location).alter (some (.file m c)) mine.target := by
    rw [World.tree_commitDraft hheld, hsame]
  have hworld' : (world.commitDraft mine).tree =
      w.tree.alter (some (.file m c)) mine.target := by
    rw [World.tree_commitDraft hmine₀, hworld,
      ← World.tree_commitDraft (hmine.find?_withDraft m c), hmine.commitDraft]
    rfl
  exact h.committed rfl hakin hfile hshared hworld'

theorem discard_effect {task' : Task FileReport} :
    Overlaid w (front ++ ⟨path, .finished, task', world.set mine.location none⟩ :: back)
      (shared.set twin.location none) := by
  obtain ⟨mode, m, old, c, hfile, hmine, -, hworld, -⟩ := writing_cases h
  refine h.discarded rfl (shared.akin_set _ _) hfile rfl ?_
  change world.tree.alter none mine.location = w.tree
  rw [hworld]
  exact congrArg World.tree (hmine.discard m c)

end Writing

/-- **A turn of a task can be mirrored by its shadow**, in a world that is shared. -/
theorem exists_turn {s : Shadow} {r : Request} {next : r.Reply → Task FileReport}
    (hw : w.Evenhanded) (hpath : w.Unobstructed s.path)
    (h : Overlaid w (front ++ s :: back) shared) (hs : s.Mirrors o w (.ask r next)) :
    ∃ s' : Shadow, s'.path = s.path ∧ s'.Mirrors o w (next (shared.gives r.perform)) ∧
      Overlaid w (front ++ s' :: back) (shared.after r.perform) := by
  obtain ⟨path, phase, task, world⟩ := s
  have htwins := hs.twins
  simp only at htwins
  cases htwins with
  | @note _ next₀ _ e hnext =>
    have hstanding := h.standing ⟨path, phase, .ask (.note e) next₀, world⟩ (by simp)
    refine exists_shadow hs rfl rfl hnext ((World.Alike.refl world).note e).toAkin ?_
    exact h.still rfl ((World.Alike.refl shared).note e) (Or.inl rfl) hstanding rfl
  | read hfailed hread => exact turn_read hpath h hs hfailed hread
  | draft hfailed hmade => exact turn_draft hpath h hs hfailed hmade
  | work hstage hnext =>
    rcases perform_twins h hw hs _ with ⟨e, hrun₀, hrun⟩ | ⟨hrun₀, hrun⟩
    · exact exists_shadow hs hrun₀ hrun (hnext _) (.refl world) (writing_still h)
    · refine exists_shadow hs hrun₀ hrun (hnext _) ?_ (writing_effect h hstage)
      exact Stage.akin_effect ..
  | commit hfailed hdone =>
    rcases perform_twins h hw hs .commit with ⟨e, hrun₀, hrun⟩ | ⟨hrun₀, hrun⟩
    · exact exists_shadow hs hrun₀ hrun (hfailed e) (.refl world) (writing_still h)
    · refine exists_shadow hs hrun₀ hrun hdone ?_ (commit_effect h)
      exact Stage.commit.akin_effect ..
  | discard hnext => exact exists_shadow hs rfl rfl hnext (world.akin_set _ _) (discard_effect h)

end Turn

/-! ### Runs -/

/-- A pool in which every task has a shadow. -/
structure Pool.Shared (o : Options) (w : World) (shadows : List Shadow) (p : Pool FileReport) :
    Prop where
  mirrors : List.Forall₂ (Shadow.Mirrors o w) shadows p.tasks
  overlaid : Overlaid w shadows p.world

namespace Pool

variable {o : Options} {w : World} {paths : List String} {p p' : Pool FileReport}
  {shadows : List Shadow}

/-- The shadow of a task that has not started. -/
def shadowAt (o : Options) (w : World) (path : String) : Shadow :=
  ⟨path, .fresh, processFile o path, w⟩

theorem shared_start (hapart : w.tree.Apart paths) :
    Shared o w (paths.map (shadowAt o w)) ⟨paths.map (processFile o), w⟩ where
  mirrors := by
    rw [List.forall₂_map_left_iff, List.forall₂_map_right_iff, List.forall₂_same]
    intro path _
    exact ⟨twins_processFile o path, .refl w, congrFun (Task.run_processFile o path) w⟩
  overlaid := by
    have hdrafts : (paths.map (shadowAt o w)).flatMap Shadow.drafts = [] := by
      simp [shadowAt, Shadow.drafts, Phase.drafts]
    refine ⟨?_, .refl w, ?_, ?_, ?_, ?_⟩
    · rwa [List.map_map, show Shadow.path ∘ shadowAt o w = id from rfl, List.map_id]
    · intro s hs
      obtain ⟨path, -, rfl⟩ := List.mem_map.mp hs
      exact .fresh
    · rw [hdrafts]
      exact List.nodup_nil
    · intro s hs mine twin hphase
      obtain ⟨path, -, rfl⟩ := List.mem_map.mp hs
      cases hphase
    · rw [hdrafts]
      refine (Node.settle_eq_self fun patch hpatch => ?_).symm
      obtain ⟨s, hs, hpatch⟩ := List.mem_flatMap.mp hpatch
      obtain ⟨path, -, rfl⟩ := List.mem_map.mp hs
      obtain ⟨mode, old, hfile⟩ := Node.of_mem_patch hpatch
      have hfind := (Node.resolve_eq_ok.mp hfile).2
      change patch ∈ w.tree.patch path w.tree at hpatch
      change w.tree.resolve path = _ at hfile
      rw [Node.patch_eq hfile hfind] at hpatch
      rw [List.mem_singleton.mp hpatch]
      exact hfind

/-- The shadow of one of the tasks. -/
theorem exists_middle {before after : List (Task FileReport)} {t : Task FileReport}
    (h : List.Forall₂ (Shadow.Mirrors o w) shadows (before ++ t :: after)) :
    ∃ front s back, shadows = front ++ s :: back ∧
      List.Forall₂ (Shadow.Mirrors o w) front before ∧ s.Mirrors o w t ∧
      List.Forall₂ (Shadow.Mirrors o w) back after := by
  have hfront := List.forall₂_take_append shadows before (t :: after) h
  have hback := List.forall₂_drop_append shadows before (t :: after) h
  obtain ⟨s, back, hs, hrest, hdrop⟩ := List.forall₂_cons_right_iff.mp hback
  exact ⟨_, s, back, by rw [← hdrop, List.take_append_drop], hfront, hs, hrest⟩

/-- **One turn of any task keeps every task in step with its shadow.** -/
theorem Shared.step (hw : w.Evenhanded) (hpaths : ∀ s ∈ shadows, w.Unobstructed s.path)
    (h : Shared o w shadows p) (hstep : p.Step p') :
    ∃ shadows', shadows'.map Shadow.path = shadows.map Shadow.path ∧ Shared o w shadows' p' := by
  cases hstep with
  | turn before after r next shared =>
    obtain ⟨front, s, back, rfl, hfront, hs, hback⟩ := exists_middle h.mirrors
    obtain ⟨s', hpath, hs', hoverlaid⟩ := exists_turn hw (hpaths s (by simp)) h.overlaid hs
    refine ⟨front ++ s' :: back, ?_, ?_, hoverlaid⟩
    · rw [List.map_append, List.map_append, List.map_cons, List.map_cons, hpath]
    · exact List.rel_append hfront (.cons hs' hback)

/-- Every run keeps every task in step with its shadow. -/
theorem shared_of_run (hw : w.Evenhanded) (hapart : w.tree.Apart paths)
    (hpaths : ∀ path ∈ paths, w.Unobstructed path)
    (hrun : ReflTransGen Step ⟨paths.map (processFile o), w⟩ p) :
    ∃ shadows, shadows.map Shadow.path = paths ∧ Shared o w shadows p := by
  induction hrun with
  | refl => exact ⟨_, by simp [shadowAt, Function.comp_def], shared_start hapart⟩
  | tail _ hstep ih =>
    obtain ⟨shadows, hshadows, hshared⟩ := ih
    have hclear : ∀ s ∈ shadows, w.Unobstructed s.path := by
      intro s hs
      refine hpaths s.path ?_
      rw [← hshadows]
      exact List.mem_map_of_mem hs
    obtain ⟨shadows', hsame, hshared'⟩ := hshared.step hw hclear hstep
    exact ⟨shadows', hsame.trans hshadows, hshared'⟩

/-! ### How runs end -/

theorem ends_of_mirrors {tasks : List (Task FileReport)}
    (h : List.Forall₂ (Shadow.Mirrors o w) shadows tasks)
    (hdone : ∀ t ∈ tasks, ∃ report, t = .done report) :
    tasks = shadows.map (fun s => .done (w.gives (processFile o s.path))) ∧
      ∀ s ∈ shadows, s.phase.Idle ∧ s.world = w.after (processFile o s.path) := by
  induction h with
  | nil => exact ⟨rfl, by simp⟩
  | @cons s t shadows tasks hs _ ih =>
    obtain ⟨⟨report, rfl⟩, hrest⟩ := List.forall_mem_cons.mp hdone
    obtain ⟨htasks, hshadows⟩ := ih hrest
    obtain ⟨path, phase, task, world⟩ := s
    have htwins := hs.twins
    have hrun := hs.run
    simp only at htwins hrun
    cases htwins with
    | done _ hidle =>
      have hreport : report = w.gives (processFile o path) := congrArg Prod.fst hrun
      have hworld : world = w.after (processFile o path) := congrArg Prod.snd hrun
      rw [List.map_cons, ← htasks, ← hreport, List.forall_mem_cons]
      exact ⟨rfl, ⟨hidle, hworld⟩, hshadows⟩

/-- The tree in which every file of a batch is as processing it alone leaves it. -/
def merged (o : Options) (w : World) (paths : List String) : Node :=
  w.tree.settle (paths.flatMap fun path => w.tree.patch path (w.after (processFile o path)).tree)

/-- A run that is over has given each file its report, and left each as if it had been alone. -/
theorem ends_of_run (hw : w.Evenhanded) (hapart : w.tree.Apart paths)
    (hpaths : ∀ path ∈ paths, w.Unobstructed path)
    (hrun : ReflTransGen Step ⟨paths.map (processFile o), w⟩ p)
    (hdone : ∀ t ∈ p.tasks, ∃ report, t = .done report) :
    p.tasks = paths.map (fun path => .done (w.gives (processFile o path))) ∧
      p.world.tree = merged o w paths ∧
      Node.Patching w.tree
        (paths.flatMap fun path => w.tree.patch path (w.after (processFile o path)).tree) := by
  obtain ⟨shadows, rfl, hshared⟩ := shared_of_run hw hapart hpaths hrun
  obtain ⟨htasks, hshadows⟩ := ends_of_mirrors hshared.mirrors hdone
  have hdrafts : shadows.flatMap Shadow.drafts = [] := by
    rw [List.flatMap_eq_nil_iff]
    exact fun s hs => (hshadows s hs).1.drafts
  have hpatches : shadows.flatMap (Shadow.patch w) = (shadows.map Shadow.path).flatMap fun path =>
      w.tree.patch path (w.after (processFile o path)).tree := by
    rw [List.flatMap_map]
    refine List.flatMap_congr fun s hs => ?_
    rw [Shadow.patch, (hshadows s hs).2]
  refine ⟨?_, ?_, ?_⟩
  · rw [htasks, List.map_map]
    rfl
  · have htree := hshared.overlaid.tree
    rwa [hdrafts, hpatches] at htree
  · have hpatching := hshared.overlaid.patching
    rwa [hpatches] at hpatching

/-- Where no task can take a turn, all are done. -/
theorem done_of_stuck (hstuck : ∀ p', ¬ p.Step p') : ∀ t ∈ p.tasks, ∃ report, t = .done report := by
  intro t ht
  obtain ⟨before, after, htasks⟩ := List.append_of_mem ht
  cases t with
  | done report => exact ⟨report, rfl⟩
  | ask r next =>
    have hturn := Step.turn before after r next p.world
    rw [← htasks] at hturn
    exact absurd hturn (hstuck _)

section InOrder

variable (hw : w.Evenhanded) (hapart : w.tree.Apart paths)
  (hpaths : ∀ path ∈ paths, w.Unobstructed path)

include hw hapart hpaths

/-- To process the files in order is one of the runs. -/
theorem in_order :
    w.gives (processFiles o paths) = paths.map (fun path => w.gives (processFile o path)) ∧
      (w.after (processFiles o paths)).tree = merged o w paths ∧
      Node.Patching w.tree
        (paths.flatMap fun path => w.tree.patch path (w.after (processFile o path)).tree) := by
  obtain ⟨htasks, hends⟩ := ends_of_run hw hapart hpaths (reaches_in_order o w paths) (by
    intro t ht
    obtain ⟨report, -, rfl⟩ := List.mem_map.mp ht
    exact ⟨report, rfl⟩)
  refine ⟨?_, hends⟩
  have hinj : Function.Injective (Task.done : FileReport → Task FileReport) :=
    fun _ _ heq => Task.done.inj heq
  refine List.map_injective_iff.mpr hinj ?_
  rw [List.map_map]
  exact htasks

theorem find?_in_order {path : String} (hpath : path ∈ paths) {place : Location} {mode : Nat}
    {old : ByteArray} (hfile : w.tree.resolve path = .ok (place, .file mode old)) {node : Node}
    (hnode : (w.after (processFile o path)).tree.find? place = some node) :
    (w.after (processFiles o paths)).tree.find? place = some node := by
  obtain ⟨-, htree, hpatching⟩ := in_order (o := o) hw hapart hpaths
  have hpatch : (place, node) ∈ paths.flatMap fun path =>
      w.tree.patch path (w.after (processFile o path)).tree := by
    refine List.mem_flatMap.mpr ⟨path, hpath, ?_⟩
    rw [Node.patch_eq hfile hnode]
    exact List.mem_singleton.mpr rfl
  obtain ⟨front, back, hpatches⟩ := List.append_of_mem hpatch
  rw [hpatches] at hpatching
  rw [htree, merged, hpatches]
  exact hpatching.find?_settle

/-- Nothing looks different where no path leads to a file. -/
theorem look_elsewhere {place : Location} (hplace : ∀ path ∈ paths, ∀ mode old,
      w.tree.resolve path ≠ .ok (place, .file mode old)) :
    (w.after (processFiles o paths)).tree.look place = w.tree.look place := by
  obtain ⟨-, htree, hpatching⟩ := in_order (o := o) hw hapart hpaths
  rw [htree, merged, hpatching.look]
  rintro patch hpatch rfl
  obtain ⟨path, hpath, hpatch⟩ := List.mem_flatMap.mp hpatch
  obtain ⟨mode, old, hfile⟩ := Node.of_mem_patch hpatch
  exact hplace path hpath mode old hfile

/-- Every file of a batch ends as processing it alone leaves it. -/
theorem look_in_order {path : String} (hpath : path ∈ paths) {place : Location}
    (hlocate : w.tree.locate path = .ok place) :
    (w.after (processFiles o paths)).tree.look place =
      (w.after (processFile o path)).tree.look place := by
  by_cases hfile : ∃ mode old, w.tree.find? place = some (.file mode old)
  · obtain ⟨mode, old, hfind⟩ := hfile
    have hresolve := Node.resolve_eq_ok.mpr ⟨hlocate, hfind⟩
    obtain ⟨node, hnode⟩ : ∃ node, (w.after (processFile o path)).tree.find? place = some node := by
      obtain ⟨-, ⟨-, hsolo⟩ | ⟨-, location, mode', source, hfile, -, hsolo⟩⟩ :=
        (processed_file o w path).effect
      · exact ⟨_, by rw [hsolo, hfind]⟩
      · rw [hresolve] at hfile
        cases hfile
        exact ⟨_, by rw [hsolo, Node.find?_alter_self hfind]⟩
    rw [Node.look, Node.look, hnode, find?_in_order hw hapart hpaths hpath hresolve hnode]
  · have hnone : ∀ path ∈ paths, ∀ mode old, w.tree.resolve path ≠ .ok (place, .file mode old) :=
      fun path _ mode old hresolve => hfile ⟨mode, old, (Node.resolve_eq_ok.mp hresolve).2⟩
    rw [look_elsewhere hw hapart hpaths hnone]
    obtain ⟨-, ⟨-, hsolo⟩ | ⟨-, location, mode, source, hresolve, -, hsolo⟩⟩ :=
      (processed_file o w path).effect
    · rw [hsolo]
    · obtain ⟨hlocate', hfind⟩ := Node.resolve_eq_ok.mp hresolve
      rw [hlocate] at hlocate'
      cases hlocate'
      exact absurd ⟨mode, _, hfind⟩ hfile

end InOrder

end Pool

/-! ### Collected files -/

namespace Node

variable {t : Node} {location place : Location}

/-- Names that lead to a file through folders ask for what is there. -/
theorem isSome_of_asks_names {links : Nat} {here names : Location}
    (hnames : ∀ n ∈ names, Path.IsName n) (hfile : t.kindAt (here ++ names) = some .file)
    (h : place ∈ t.asks links here names) : (t.find? place).isSome := by
  induction names generalizing here with
  | nil =>
    rw [asks] at h
    cases h
  | cons name names ih =>
    obtain ⟨hname, hrest⟩ := List.forall_mem_cons.mp hnames
    rw [List.append_cons] at hfile
    have hthere : (t.find? (here ++ [name] ++ names)).isSome := by
      rw [← kindAt_isSome, hfile]
      rfl
    rw [asks_cons, advance_name hname (kindAt_head hfile), List.mem_cons] at h
    rcases h with rfl | h
    · exact find?_isSome_above hthere (List.prefix_append _ _)
    · by_cases hlong : maxNameSize < name.utf8ByteSize
      · rw [if_pos hlong] at h
        cases h
      · rw [if_neg hlong] at h
        exact ih hrest hfile h

/-- The paths of the files to process below a folder only ask for what is there, but for dots. -/
theorem asksKnown_sources (o : Options) {target : String} {entries : List (String × Node)}
    (h : t.WellFormed) (htarget : t.resolve target = .ok (location, folder entries)) {path : String}
    (hpath : path ∈ Path.sort (Listing.entrySources o target (entryListings entries))) :
    t.AsksKnown maxLinks [] (Path.pieces path) := by
  rw [Path.sort, List.mem_mergeSort, entrySources_eq o h htarget] at hpath
  obtain ⟨names, hnames, rfl⟩ := List.mem_map.mp hpath
  obtain ⟨hlocate, hfind⟩ := resolve_eq_ok.mp htarget
  have hentries := h.find? hfind
  rw [WellFormed] at hentries
  obtain ⟨hchosen, hne⟩ := of_mem_chosenIn o hentries.1 hentries.2 hnames
  have hfile : t.kindAt (location ++ names) = some .file := by
    rw [← hchosen.kindAt, kindAt, kindAt, look, look, find?_append, hfind, Option.bind_some]
  intro place hplace
  rw [Path.pieces_joinAll hchosen.isName hne (ne_empty_of_locate hlocate)] at hplace
  rcases asks_append hplace with hplace | ⟨links, middle, hmiddle, hplace⟩
  · exact (asksKnown_of_follow (by simp) (follow_stem hlocate)).2 place hplace
  · rw [follow_stem hlocate] at hmiddle
    cases hmiddle
    exact Or.inl (isSome_of_asks_names hchosen.isName hfile hplace)

end Node

/-- Files are collected only from a target that leads somewhere. -/
theorem World.locate_of_collects {w : World} {o : Options} {target : String} {paths : List String}
    (h : w.collects o target = .ok paths) : ∃ place, w.tree.locate target = .ok place := by
  unfold collects at h
  split at h
  · cases h
  · cases h
  · next hsurvey => exact ⟨_, (Node.resolve_eq_ok.mp (resolve_of_surveys hsurvey)).1⟩
  · next hsurvey => exact ⟨_, (Node.resolve_eq_ok.mp (resolve_of_surveys hsurvey)).1⟩

/-- No draft gets in the way of the files that are collected. -/
theorem World.unobstructed_collects {w : World} {o : Options} {target : String}
    {paths : List String} (hwf : w.tree.WellFormed) (h : w.collects o target = .ok paths) :
    ∀ path ∈ paths, w.Unobstructed path := by
  intro path hpath
  obtain ⟨place, hlocate⟩ := locate_of_collects h
  rcases collects_cases h with ⟨top, entries, htarget, rfl⟩ | ⟨-, rfl⟩
  · exact unobstructed_of_asksKnown (Node.asksKnown_sources o hwf htarget hpath)
  · cases List.mem_singleton.mp hpath
    exact (World.isSome_of_locate hlocate).2

/-! ### Any order -/

/-- The files of a batch may be processed with their steps in any order. -/
structure AnyOrder (o : Options) (w : World) (paths : List String) : Prop where
  /-- The reports are those that the files get alone, in the order of the paths. -/
  reports : w.gives (processFiles o paths) = paths.map fun path => w.gives (processFile o path)
  /-- No run goes on for ever. -/
  finite : ∀ p, ReflTransGen Pool.Step ⟨paths.map (processFile o), w⟩ p →
    Acc (fun p' p => Pool.Step p p') p
  /-- A run that cannot go on has given those reports and leaves the tree that processing the files
  in order leaves. -/
  ends : ∀ p, ReflTransGen Pool.Step ⟨paths.map (processFile o), w⟩ p →
    (∀ p', ¬ p.Step p') → p.tasks = (w.gives (processFiles o paths)).map .done ∧
      p.world.tree = (w.after (processFiles o paths)).tree
  /-- Each file ends as processing it alone leaves it, whatever becomes of the others. -/
  alone : ∀ path ∈ paths, ∀ place, w.tree.locate path = .ok place →
    (w.after (processFiles o paths)).tree.look place =
      (w.after (processFile o path)).tree.look place
  elsewhere : ∀ place, (∀ path ∈ paths, w.tree.locate path ≠ .ok place) →
    (w.after (processFiles o paths)).tree.look place = w.tree.look place

theorem anyOrder {o : Options} {w : World} {paths : List String} (hw : w.Evenhanded)
    (hapart : w.tree.Apart paths) (hpaths : ∀ path ∈ paths, w.Unobstructed path) :
    AnyOrder o w paths := by
  obtain ⟨hreports, htree, -⟩ := Pool.in_order (o := o) hw hapart hpaths
  refine ⟨hreports, fun p _ => p.acc, fun p hrun hstuck => ?_, ?_, ?_⟩
  · obtain ⟨htasks, hends, -⟩ :=
      Pool.ends_of_run hw hapart hpaths hrun (Pool.done_of_stuck hstuck)
    rw [htasks, hends, hreports, htree, List.map_map]
    exact ⟨rfl, rfl⟩
  · intro path hpath place hlocate
    exact Pool.look_in_order hw hapart hpaths hpath hlocate
  · intro place hplace
    refine Pool.look_elsewhere hw hapart hpaths fun path hpath mode old hfile => ?_
    exact hplace path hpath (Node.resolve_eq_ok.mp hfile).1

/-- **The files of a batch may be processed in any order.** If the paths lead to different files, as
far as they lead anywhere, and no draft gets in their way, then every way to take turns with the
steps of the files comes to an end, with the reports that the files get alone and the tree that
processing them in order leaves; a file that fails or is skipped changes nothing for the others.
A draft may get any name that is free, another one in each run, but whether a step is refused must
not hang on it. The files that are collected from a target always lead to different files, with no
draft in their way. -/
theorem batch_order_independent (o : Options) (w : World) (hw : w.Evenhanded) :
    (∀ paths, w.tree.Apart paths → (∀ path ∈ paths, w.Unobstructed path) →
      AnyOrder o w paths) ∧
    ∀ target paths, w.tree.WellFormed → w.gives (collect o target) = .ok paths →
      w.tree.Apart paths ∧ (∀ path ∈ paths, w.Unobstructed path) ∧ AnyOrder o w paths := by
  refine ⟨fun paths hapart hpaths => anyOrder hw hapart hpaths, ?_⟩
  intro target paths hwf hcollect
  obtain ⟨w', -, hrun⟩ := w.collect_run o target
  have hcollects : w.collects o target = .ok paths := by
    rw [← hcollect, World.gives, hrun]
  have hapart := World.apart_collects hwf hcollects
  have hpaths := World.unobstructed_collects hwf hcollects
  exact ⟨hapart, hpaths, anyOrder hw hapart hpaths⟩

/-! ### Two files in a folder, and one that is not there -/

namespace Node

theorem locate_c : linkedTree.locate "src/c.md" = .ok ["src", "c.md"] := by
  have hpieces : Path.pieces "src/c.md" = ["src", "c.md"] := by decide
  have hsrc : linkedTree.advance maxLinks [] "src" = .ok (maxLinks, ["src"], []) := rfl
  have hfile : linkedTree.advance maxLinks ["src"] "c.md" = .ok (maxLinks, ["src", "c.md"], []) :=
    rfl
  rw [locate, if_neg (by decide), if_neg (by decide), if_neg (by simp), hpieces, follow_cons, hsrc]
  simp only [List.nil_append]
  rw [follow_cons, hfile]
  simp only [List.nil_append]
  rw [follow]

theorem advance_gone : linkedTree.advance maxLinks [] "gone.js" = .error .noEntry := rfl

theorem locate_gone : linkedTree.locate "gone.js" = .error .noEntry := by
  have hpieces : Path.pieces "gone.js" = ["gone.js"] := by decide
  rw [locate, if_neg (by decide), if_neg (by decide), if_neg (by simp), hpieces, follow_cons,
    advance_gone]

end Node

theorem World.unobstructed_gone : ({ tree := .linkedTree } : World).Unobstructed "gone.js" := by
  have hpieces : Path.pieces "gone.js" = ["gone.js"] := by decide
  intro place hplace hoffers
  rw [hpieces, Node.asks_cons, Node.advance_gone] at hplace
  cases List.mem_singleton.mp hplace
  obtain ⟨events, target, taken, heq⟩ := hoffers
  have hname := congrArg List.getLast? heq
  rw [List.nil_append, List.getLast?_singleton, List.getLast?_concat] at hname
  have hlong := Namer.length_usualName taken
  have hshort : "gone.js".length = 7 := by decide
  have hlength := congrArg String.length (Option.some.inj hname)
  rw [Namer.length_draftName] at hlong
  change "gone.js".length = (Namer.usualName taken).length at hlength
  omega

/-- Whatever the order of the steps, both files get their reports and the third its failure. -/
theorem batch_order_independent_linkedTree :
    let w : World := { tree := .linkedTree }
    let paths := ["lib/a.js", "gone.js", "src/c.md"]
    w.Evenhanded ∧ w.tree.Apart paths ∧ (∀ path ∈ paths, w.Unobstructed path) ∧
      w.gives (processFiles {} paths) = paths.map (fun path => w.gives (processFile {} path)) ∧
      ∀ p, ReflTransGen Pool.Step ⟨paths.map (processFile {}), w⟩ p → (∀ p', ¬ p.Step p') →
        p.tasks = (w.gives (processFiles {} paths)).map .done ∧
          p.world.tree = (w.after (processFiles {} paths)).tree := by
  intro w paths
  have hw : w.Evenhanded := fun _ _ _ => rfl
  have ha : w.tree.locate "lib/a.js" = .ok ["src", "a.js"] :=
    (Node.resolve_eq_ok.mp Node.resolve_lib_file).1
  have hgone : w.tree.locate "gone.js" = .error .noEntry := Node.locate_gone
  have hc : w.tree.locate "src/c.md" = .ok ["src", "c.md"] := Node.locate_c
  have hapart : w.tree.Apart paths := by
    simp [paths, Node.Apart, ha, hgone, hc]
  have hpaths : ∀ path ∈ paths, w.Unobstructed path := by
    intro path hpath
    simp only [paths, List.mem_cons, List.not_mem_nil, or_false] at hpath
    rcases hpath with rfl | rfl | rfl
    · exact (World.isSome_of_locate ha).2
    · exact World.unobstructed_gone
    · exact (World.isSome_of_locate hc).2
  have hany := (batch_order_independent {} w hw).1 paths hapart hpaths
  exact ⟨hw, hapart, hpaths, hany.reports, hany.ends⟩

end Uncomment
