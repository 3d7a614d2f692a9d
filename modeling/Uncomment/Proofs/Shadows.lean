/-
# Tasks and their shadows

Some tasks for different files share a world. The shadow of a task is a copy of it that has a world
of its own, and goes along with it step by step. What the shared tree holds is told by the shadows:
without the drafts of all tasks, it is the first tree in which each file has been replaced by what
its shadow has in its place. One turn of one task keeps this, whatever is refused.

Key definitions: `Namer.Offers`, `World.Unobstructed`, `World.Evenhanded`, `Shadow`, `Standing`,
`Overlaid`. Main statements: `Overlaid.locate`, `Overlaid.still`, `Overlaid.opened`,
`Overlaid.rewritten`, `Overlaid.discarded`, `Overlaid.committed`.
-/
import Uncomment.Proofs.Overlays
import Uncomment.Proofs.Tasks

namespace Uncomment

open Node (Patching)

/-! ### Names of drafts -/

/-- A place that a draft may have. -/
def Namer.Offers (n : Namer) (l : Location) : Prop :=
  ∃ events target taken, l = target.dropLast ++ [n.pick events target taken]

theorem Namer.not_offers_dots (n : Namer) {dir : Location} {piece : String}
    (h : piece ∈ ["", ".", ".."]) : ¬ n.Offers (dir ++ [piece]) := by
  rintro ⟨events, target, taken, heq⟩
  have hpiece := (List.append_inj' heq rfl).2
  rw [List.singleton_inj.mp hpiece] at h
  exact n.not_dots events target taken h

namespace World

variable {w w' : World} {path : String} {place : Location}

/-- Wherever a path asks for a place that a draft may have, something is there already. -/
def Unobstructed (w : World) (path : String) : Prop :=
  ∀ place ∈ w.tree.asks Node.maxLinks [] (Path.pieces path), w.namer.Offers place →
    (w.tree.find? place).isSome

/-- Drafts are out of the way of a path that only asks for what is there, but for dots. -/
theorem unobstructed_of_asksKnown (h : w.tree.AsksKnown Node.maxLinks [] (Path.pieces path)) :
    w.Unobstructed path := by
  intro place hplace hoffers
  rcases h place hplace with hthere | ⟨dir, piece, hdots, rfl⟩
  · exact hthere
  · exact absurd hoffers (w.namer.not_offers_dots hdots)

theorem isSome_of_locate (h : w.tree.locate path = .ok place) :
    (w.tree.find? place).isSome ∧ w.Unobstructed path := by
  obtain ⟨hplace, hasks⟩ := Node.asksKnown_of_follow (by simp) (Node.follow_of_locate h)
  exact ⟨hplace, unobstructed_of_asksKnown hasks⟩

theorem offers_openDraft {d : TreeDraft} (h : w.openDraft path = .ok (d, w')) :
    w.namer.Offers d.location := by
  unfold openDraft at h
  split at h
  · cases h
  · cases h
    exact ⟨_, _, _, rfl⟩

end World

/-- A draft, whatever its name. -/
def TreeDraft.unnamed (d : TreeDraft) : TreeDraft := { d with location := d.location.dropLast }

theorem TreeDraft.target_eq {d d' : TreeDraft} (h : d.unnamed = d'.unnamed) :
    d.target = d'.target := (TreeDraft.mk.inj h).1

theorem TreeDraft.dropLast_eq {d d' : TreeDraft} (h : d.unnamed = d'.unnamed) :
    d.location.dropLast = d'.location.dropLast := (TreeDraft.mk.inj h).2

/-- An action, whatever the name of its draft. -/
def Action.unnamed : Action → Action
  | .fill d text => .fill d.unnamed text
  | .flush d => .flush d.unnamed
  | .protect d => .protect d.unnamed
  | .commit d => .commit d.unnamed
  | action => action

/-- Whether an action is refused does not depend on the name of a draft. -/
def World.Evenhanded (w : World) : Prop :=
  ∀ a b : Action, a.unnamed = b.unnamed → w.refuses a = w.refuses b

section Drafting

variable {w : World} {d : TreeDraft} {mode : Nat} {old : ByteArray} (h : w.Drafting mode old d)

include h

/-- The place for a draft is free. -/
theorem World.Drafting.find?_location : w.tree.find? d.location = none := by
  obtain ⟨hdir, hbase, hfree⟩ := h
  rw [Node.find?_append, hdir]
  simp [hfree]

/-- A draft gets in the way of no file. -/
theorem World.Drafting.asunder {l : Location} {m : Nat} {c : ByteArray}
    (hfound : w.tree.find? l = some (.file m c)) : Asunder l d.location := by
  obtain ⟨hdir, hbase, hfree⟩ := h
  exact Node.asunder_of_free hdir hfree hfound

theorem World.Drafting.find?_withDraft (m : Nat) (c : ByteArray) :
    (w.withDraft d m c).tree.find? d.location = some (.file m c) := by
  obtain ⟨hdir, hbase, hfree⟩ := h
  exact Node.find?_alter_concat_self hdir ..

/-- A draft is not in the place of its file. -/
theorem World.Drafting.find?_target (m : Nat) (c : ByteArray) :
    (w.withDraft d m c).tree.find? d.target = some (.file mode old) := by
  obtain @⟨dir, base, name, entries, hdir, hbase, hfree⟩ := h
  have hne : base ≠ name := by
    rintro rfl
    rw [hfree] at hbase
    cases hbase
  change (Node.alter _ _ _).find? (dir ++ [base]) = _
  rw [Node.find?_alter_concat_of_ne hdir hne, Node.find?_append, hdir]
  simp [hbase]

end Drafting

/-! ### Shadows -/

/-- A copy of the task for a file, with a world of its own. -/
structure Shadow where
  path : String
  phase : Phase
  task : Task FileReport
  world : World

/-- Where the draft of a task is. -/
def Phase.drafts : Phase → List Location
  | .writing _ twin => [twin.location]
  | _ => []

theorem Phase.Idle.drafts {phase : Phase} (h : phase.Idle) : phase.drafts = [] := by
  cases phase with
  | writing mine twin => exact absurd rfl (h mine twin)
  | _ => rfl

/-- Where the draft of the task is that a shadow belongs to. -/
def Shadow.drafts (s : Shadow) : List Location := s.phase.drafts

theorem Shadow.drafts_writing {s : Shadow} {mine twin : TreeDraft}
    (h : s.phase = .writing mine twin) : s.drafts = [twin.location] := by
  rw [Shadow.drafts, h]
  rfl

theorem Shadow.mem_drafts {s : Shadow} {front back : List Shadow} {mine twin : TreeDraft}
    (h : s.phase = .writing mine twin) :
    twin.location ∈ (front ++ s :: back).flatMap Shadow.drafts := by
  rw [List.flatMap_append, List.flatMap_cons, Shadow.drafts_writing h]
  simp

/-- What a tree has in the place of the file that a path leads to in another tree. -/
def Node.patch (first : Node) (path : String) (t : Node) : List (Location × Node) :=
  match first.resolve path with
  | .ok (place, .file mode contents) => [(place, (t.find? place).getD (.file mode contents))]
  | _ => []

theorem Node.patch_eq {first t node : Node} {path : String} {place : Location} {mode : Nat}
    {old : ByteArray} (hfile : first.resolve path = .ok (place, .file mode old))
    (h : t.find? place = some node) : first.patch path t = [(place, node)] := by
  unfold Node.patch
  rw [hfile]
  simp [h]

/-- What the shadow of a task has in the place of its file. -/
def Shadow.patch (w : World) (s : Shadow) : List (Location × Node) :=
  w.tree.patch s.path s.world.tree

/-- What the tree of a shadow looks like, by how far it has got. -/
inductive Standing (w : World) (path : String) : Phase → Node → Prop
  | fresh : Standing w path .fresh w.tree
  | informed {place : Location} {mode : Nat} {old : ByteArray}
    (hfile : w.tree.resolve path = .ok (place, .file mode old)) : Standing w path .informed w.tree
  | writing {mine twin : TreeDraft} {mode m : Nat} {old c : ByteArray}
    (hfile : w.tree.resolve path = .ok (mine.target, .file mode old))
    (hmine : w.Drafting mode old mine) (hunnamed : twin.unnamed = mine.unnamed)
    (hplace : w.namer.Offers twin.location) (hfree : w.tree.find? twin.location = none) :
    Standing w path (.writing mine twin) (w.withDraft mine m c).tree
  | kept : Standing w path .finished w.tree
  | stored {place : Location} {mode m : Nat} {old c : ByteArray}
    (hfile : w.tree.resolve path = .ok (place, .file mode old)) :
    Standing w path .finished (w.tree.alter (some (.file m c)) place)

namespace Standing

variable {w : World} {path : String} {phase : Phase} {tree : Node} {place : Location} {mode : Nat}
  {old : ByteArray}

/-- A file stays a file. -/
theorem file (h : Standing w path phase tree)
    (hfile : w.tree.resolve path = .ok (place, .file mode old)) :
    ∃ m c, tree.find? place = some (.file m c) := by
  obtain ⟨-, hfind⟩ := Node.resolve_eq_ok.mp hfile
  cases h with
  | fresh => exact ⟨mode, old, hfind⟩
  | informed => exact ⟨mode, old, hfind⟩
  | kept => exact ⟨mode, old, hfind⟩
  | writing hfile' hmine =>
    rw [hfile] at hfile'
    cases hfile'
    exact ⟨mode, old, hmine.find?_target _ _⟩
  | stored hfile' =>
    rw [hfile] at hfile'
    cases hfile'
    exact ⟨_, _, Node.find?_alter_self hfind _⟩

end Standing

/-- The place of a patch is that of a file to which the path leads. -/
theorem Node.of_mem_patch {first t : Node} {path : String} {p : Location × Node}
    (h : p ∈ first.patch path t) : ∃ mode old, first.resolve path = .ok (p.1, .file mode old) := by
  unfold Node.patch at h
  split at h
  · next place mode contents hfile =>
    cases List.mem_singleton.mp h
    exact ⟨mode, contents, hfile⟩
  · cases h

/-- What is read does not depend on the names in a folder. -/
theorem World.contents_eq_outline (w : World) (path : String) :
    w.contents path =
      match w.tree.locate path with
      | .error e => .error e
      | .ok place =>
        match w.tree.outline place with
        | none => .error .noEntry
        | some (.file _ bytes) => .ok bytes
        | some _ => .error .isDirectory := by
  rw [contents_eq]
  unfold Node.outline
  cases w.tree.locate path with
  | error e => rfl
  | ok place =>
    cases hlook : w.tree.look place with
    | none => simp [hlook]
    | some sight => cases sight <;> simp [hlook, Sight.plain]

/-! ### The shared tree -/

/-- A world in which some tasks have got as far as their shadows. -/
structure Overlaid (w : World) (shadows : List Shadow) (shared : World) : Prop where
  apart : w.tree.Apart (shadows.map Shadow.path)
  akin : w.Akin shared
  standing : ∀ s ∈ shadows, Standing w s.path s.phase s.world.tree
  nodup : (shadows.flatMap Shadow.drafts).Nodup
  /-- The draft of a task holds what that of its shadow holds. -/
  held : ∀ s ∈ shadows, ∀ mine twin, s.phase = .writing mine twin →
    shared.tree.find? twin.location = s.world.tree.find? mine.location
  tree : shared.tree.clear (shadows.flatMap Shadow.drafts) =
    w.tree.settle (shadows.flatMap (Shadow.patch w))

namespace Overlaid

variable {w shared : World} {shadows front back : List Shadow} {s : Shadow} {place : Location}

/-! ### What is where -/

section Places

variable (h : Overlaid w shadows shared)

include h

/-- A draft is a file, under a name that was free. -/
theorem draft {l : Location} (hl : l ∈ shadows.flatMap Shadow.drafts) :
    (∃ m c, shared.tree.find? l = some (.file m c)) ∧ w.tree.find? l = none ∧
      w.namer.Offers l := by
  obtain ⟨s, hs, hl⟩ := List.mem_flatMap.mp hl
  have hheld := h.held s hs
  have hstanding := h.standing s hs
  unfold Shadow.drafts at hl
  cases hphase : s.phase with
  | writing mine twin =>
    rw [hphase] at hl hstanding
    cases List.mem_singleton.mp hl
    rw [hheld mine twin hphase]
    generalize s.world.tree = tree at hstanding
    cases hstanding with
    | writing hfile hmine hunnamed hplace hfree =>
      exact ⟨⟨_, _, hmine.find?_withDraft _ _⟩, hfree, hplace⟩
  | _ =>
    rw [hphase] at hl
    cases hl

/-- A draft is not on the way to anything that was there. -/
theorem not_prefix {l : Location} (hl : l ∈ shadows.flatMap Shadow.drafts)
    (hplace : (w.tree.find? place).isSome) : ¬ l <+: place := by
  intro hp
  have hthere := Node.find?_isSome_above hplace hp
  rw [(h.draft hl).2.1] at hthere
  cases hthere

theorem asunder {l l' : Location} (hl : l ∈ shadows.flatMap Shadow.drafts)
    (hl' : l' ∈ shadows.flatMap Shadow.drafts) (hne : l ≠ l') : Asunder l l' := by
  obtain ⟨⟨m, c, hfile⟩, -⟩ := h.draft hl
  obtain ⟨⟨m', c', hfile'⟩, -⟩ := h.draft hl'
  exact Node.asunder_of_files hfile hfile' hne

theorem patching : Patching w.tree (shadows.flatMap (Shadow.patch w)) where
  files := by
    intro p hp
    obtain ⟨s, hs, hp⟩ := List.mem_flatMap.mp hp
    obtain ⟨mode, old, hfile⟩ := Node.of_mem_patch hp
    exact ⟨mode, old, (Node.resolve_eq_ok.mp hfile).2⟩
  byFiles := by
    intro p hp
    obtain ⟨s, hs, hp⟩ := List.mem_flatMap.mp hp
    obtain ⟨mode, old, hfile⟩ := Node.of_mem_patch hp
    obtain ⟨m, c, hnow⟩ := (h.standing s hs).file hfile
    rw [Shadow.patch, Node.patch_eq hfile hnow] at hp
    rw [List.mem_singleton.mp hp]
    exact ⟨m, c, rfl⟩
  apart := by
    rw [List.pairwise_flatMap]
    refine ⟨fun s hs => ?_, (List.pairwise_map.mp h.apart).imp ?_⟩
    · unfold Shadow.patch Node.patch
      split
      · exact List.pairwise_singleton _ _
      · exact List.Pairwise.nil
    · intro s s' hss' p hp q hq heq
      obtain ⟨mode, old, hfile⟩ := Node.of_mem_patch hp
      obtain ⟨mode', old', hfile'⟩ := Node.of_mem_patch hq
      have hlocate := (Node.resolve_eq_ok.mp hfile).1
      have hlocate' := (Node.resolve_eq_ok.mp hfile').1
      rw [← heq] at hlocate'
      exact hss' p.1 hlocate hlocate'

/-- What was there is seen as the shadows have it. -/
theorem outline_eq (hplace : (w.tree.find? place).isSome) :
    shared.tree.outline place =
      (w.tree.settle (shadows.flatMap (Shadow.patch w))).outline place := by
  rw [← h.tree, Node.outline_clear fun l hl => h.not_prefix hl hplace]

theorem kindAt_settle (place : Location) :
    (w.tree.settle (shadows.flatMap (Shadow.patch w))).kindAt place = w.tree.kindAt place := by
  by_cases hmem : ∃ p ∈ shadows.flatMap (Shadow.patch w), p.1 = place
  · obtain ⟨p, hp, rfl⟩ := hmem
    obtain ⟨before, after, hpatches⟩ := List.append_of_mem hp
    have hpatching := h.patching
    obtain ⟨m, c, hnode⟩ := hpatching.byFiles p hp
    obtain ⟨mode, old, hfile⟩ := hpatching.files p hp
    rw [hpatches] at hpatching ⊢
    rw [Node.kindAt, Node.kindAt, Node.look, Node.look, hpatching.find?_settle, hfile, hnode]
    rfl
  · rw [Node.kindAt_eq_outline, Node.kindAt_eq_outline, h.patching.outline]
    exact fun p hp heq => hmem ⟨p, hp, heq⟩

theorem kindAt_eq (hplace : place ∉ shadows.flatMap Shadow.drafts) :
    shared.tree.kindAt place = w.tree.kindAt place := by
  by_cases hbelow : ∃ l ∈ shadows.flatMap Shadow.drafts, l <+: place
  · -- below a draft there is nothing, and was nothing
    obtain ⟨l, hl, hp⟩ := hbelow
    obtain ⟨⟨m, c, hfile⟩, hfree, -⟩ := h.draft hl
    have hne : place ≠ l := fun heq => hplace (heq ▸ hl)
    have hnone : w.tree.find? place = none := by
      rw [Option.eq_none_iff_forall_ne_some]
      intro node hnode
      exact h.not_prefix hl (by rw [hnode]; rfl) hp
    rw [Node.kindAt, Node.kindAt, Node.look, Node.look, Node.find?_below_file hfile hp hne, hnone]
  · have hclear : ∀ l ∈ shadows.flatMap Shadow.drafts, ¬ l <+: place :=
      fun l hl hp => hbelow ⟨l, hl, hp⟩
    rw [← h.kindAt_settle place, Node.kindAt_eq_outline, Node.kindAt_eq_outline, ← h.tree,
      Node.outline_clear hclear]

/-- **A path leads where it led.** -/
theorem locate {path : String} (hpath : w.Unobstructed path) :
    shared.tree.locate path = w.tree.locate path := by
  have hthere : ∀ place, (w.tree.find? place).isSome →
      shared.tree.kindAt place = w.tree.kindAt place := by
    intro place hplace
    refine h.kindAt_eq fun hmem => ?_
    rw [(h.draft hmem).2.1] at hplace
    cases hplace
  have hasks : ∀ place ∈ w.tree.asks Node.maxLinks [] (Path.pieces path),
      shared.tree.kindAt place = w.tree.kindAt place := by
    intro place hplace
    refine h.kindAt_eq fun hmem => ?_
    obtain ⟨-, hfree, hdraft⟩ := h.draft hmem
    have hsome := hpath place hplace hdraft
    rw [hfree] at hsome
    cases hsome
  rw [Node.locate, Node.locate, Node.follow_congr hthere (by simp) hasks]

end Places

/-! ### One of the tasks -/

section One

variable (h : Overlaid w (front ++ s :: back) shared)

include h

/-- Nothing that the other shadows have is in the place to which the path of this one leads. -/
theorem ne_of_other (hlocate : w.tree.locate s.path = .ok place) {p : Location × Node}
    (hp : p ∈ front.flatMap (Shadow.patch w) ++ back.flatMap (Shadow.patch w)) : p.1 ≠ place := by
  have hapart := h.apart
  rw [List.map_append, List.map_cons] at hapart
  obtain ⟨-, hback, hfront⟩ := List.pairwise_append.mp hapart
  rintro rfl
  rw [List.mem_append, List.mem_flatMap, List.mem_flatMap] at hp
  rcases hp with ⟨other, hother, hp⟩ | ⟨other, hother, hp⟩
  all_goals
    obtain ⟨mode, old, hfile⟩ := Node.of_mem_patch hp
    have hlocate' := (Node.resolve_eq_ok.mp hfile).1
  · exact hfront other.path (List.mem_map_of_mem hother) s.path List.mem_cons_self p.1 hlocate'
      hlocate
  · exact (List.pairwise_cons.mp hback).1 other.path (List.mem_map_of_mem hother) p.1 hlocate
      hlocate'

/-- The file of a task is what its shadow has for it. -/
theorem find?_file {mode : Nat} {old : ByteArray}
    (hfile : w.tree.resolve s.path = .ok (place, .file mode old)) :
    shared.tree.find? place = s.world.tree.find? place := by
  obtain ⟨-, hfind⟩ := Node.resolve_eq_ok.mp hfile
  obtain ⟨m, c, hnow⟩ := (h.standing s (by simp)).file hfile
  have hpatch := Node.patch_eq hfile hnow
  have hpatching := h.patching
  have hthere : (w.tree.find? place).isSome := by rw [hfind]; rfl
  have houtline := h.outline_eq hthere
  simp only [List.flatMap_append, List.flatMap_cons] at hpatching houtline
  rw [Shadow.patch, hpatch, List.singleton_append] at hpatching houtline
  rw [hnow, ← Node.outline_eq_file, houtline, Node.outline_eq_file, hpatching.find?_settle]

/-- As long as a task has done nothing, its path leads to what was there. -/
theorem outline_fresh (hfresh : s.world.tree = w.tree)
    (hlocate : w.tree.locate s.path = .ok place) :
    shared.tree.outline place = w.tree.outline place := by
  have hthere := (World.isSome_of_locate hlocate).1
  by_cases hfile : ∃ mode old, w.tree.resolve s.path = .ok (place, .file mode old)
  · obtain ⟨mode, old, hfile⟩ := hfile
    have hfind := (Node.resolve_eq_ok.mp hfile).2
    have hsame := h.find?_file hfile
    rw [hfresh] at hsame
    rw [Node.outline, Node.look, hsame]
    rfl
  · rw [h.outline_eq hthere, h.patching.outline]
    intro p hp heq
    rw [List.flatMap_append, List.flatMap_cons, List.mem_append, List.mem_append] at hp
    rcases hp with hp | hp | hp
    · exact h.ne_of_other hlocate (List.mem_append_left _ hp) heq
    · obtain ⟨mode, old, hresolve⟩ := Node.of_mem_patch hp
      rw [heq] at hresolve
      exact hfile ⟨mode, old, hresolve⟩
    · exact h.ne_of_other hlocate (List.mem_append_right _ hp) heq

/-- **As long as a task has done nothing, it reads what was there.** -/
theorem reads_fresh (hfresh : s.world.tree = w.tree) (hpath : w.Unobstructed s.path) :
    shared.reads s.path = w.reads s.path := by
  unfold World.reads
  rw [h.akin.refuses, World.contents_eq_outline, World.contents_eq_outline, h.locate hpath]
  cases hlocate : w.tree.locate s.path with
  | error e => rfl
  | ok place => simp only [h.outline_fresh hfresh hlocate]

/-- A file that has not been changed is found where it was. -/
theorem resolve_fresh (hfresh : s.world.tree = w.tree) (hpath : w.Unobstructed s.path)
    {place : Location} {mode : Nat} {old : ByteArray}
    (hfile : w.tree.resolve s.path = .ok (place, .file mode old)) :
    shared.tree.resolve s.path = .ok (place, .file mode old) := by
  obtain ⟨hlocate, hfind⟩ := Node.resolve_eq_ok.mp hfile
  refine Node.resolve_eq_ok.mpr ⟨by rw [h.locate hpath, hlocate], ?_⟩
  rw [h.find?_file hfile, hfresh, hfind]

/-! ### One turn -/

theorem nodup_middle :
    (front.flatMap Shadow.drafts ++ (s.drafts ++ back.flatMap Shadow.drafts)).Nodup := by
  have hnodup := h.nodup
  rwa [List.flatMap_append, List.flatMap_cons] at hnodup

theorem tree_middle :
    shared.tree.clear (front.flatMap Shadow.drafts ++ (s.drafts ++ back.flatMap Shadow.drafts)) =
      w.tree.settle (front.flatMap (Shadow.patch w) ++
        (s.patch w ++ back.flatMap (Shadow.patch w))) := by
  have htree := h.tree
  simpa only [List.flatMap_append, List.flatMap_cons] using htree

theorem draft_other {l : Location}
    (hl : l ∈ front.flatMap Shadow.drafts ++ back.flatMap Shadow.drafts) :
    ∃ m c, shared.tree.find? l = some (.file m c) := by
  refine (h.draft (l := l) ?_).1
  rw [List.flatMap_append, List.flatMap_cons]
  rcases List.mem_append.mp hl with hl | hl <;> simp [hl]

/-- What has to be seen to when a task takes a turn and its shadow goes along. -/
theorem replace {s' : Shadow} {shared' : World} (hpath : s'.path = s.path)
    (hakin : shared.Akin shared')
    (hstanding : Standing w s'.path s'.phase s'.world.tree)
    (hnodup : (front.flatMap Shadow.drafts ++ (s'.drafts ++ back.flatMap Shadow.drafts)).Nodup)
    (hheld : ∀ mine twin, s'.phase = .writing mine twin →
      shared'.tree.find? twin.location = s'.world.tree.find? mine.location)
    (hothers : ∀ l ∈ front.flatMap Shadow.drafts ++ back.flatMap Shadow.drafts,
      shared'.tree.find? l = shared.tree.find? l)
    (htree : shared'.tree.clear
        (front.flatMap Shadow.drafts ++ (s'.drafts ++ back.flatMap Shadow.drafts)) =
      w.tree.settle (front.flatMap (Shadow.patch w) ++
        (s'.patch w ++ back.flatMap (Shadow.patch w)))) :
    Overlaid w (front ++ s' :: back) shared' := by
  have hothers' : ∀ other ∈ front ++ back, ∀ mine twin, other.phase = .writing mine twin →
      shared'.tree.find? twin.location = other.world.tree.find? mine.location := by
    intro other hother mine twin hphase
    have hmem : other ∈ front ++ s :: back := by
      rcases List.mem_append.mp hother with hother | hother <;> simp [hother]
    rw [← h.held other hmem mine twin hphase]
    refine hothers _ ?_
    rw [← List.flatMap_append]
    exact List.mem_flatMap.mpr ⟨other, hother, by simp [Shadow.drafts, Phase.drafts, hphase]⟩
  refine ⟨?_, h.akin.trans hakin, ?_, ?_, ?_, ?_⟩
  · have hapart := h.apart
    rw [List.map_append, List.map_cons] at hapart ⊢
    rwa [hpath]
  · intro other hother
    rcases List.mem_append.mp hother with hother | hother
    · exact h.standing other (by simp [hother])
    · rcases List.mem_cons.mp hother with rfl | hother
      · exact hstanding
      · exact h.standing other (by simp [hother])
  · rwa [List.flatMap_append, List.flatMap_cons]
  · intro other hother
    rcases List.mem_append.mp hother with hother | hother
    · exact hothers' other (List.mem_append_left _ hother)
    · rcases List.mem_cons.mp hother with rfl | hother
      · exact hheld
      · exact hothers' other (List.mem_append_right _ hother)
  · simpa only [List.flatMap_append, List.flatMap_cons] using htree

/-- A turn that leaves the tree as it is. -/
theorem still {s' : Shadow} {shared' : World} (hpath : s'.path = s.path)
    (hshared : shared.Alike shared') (hphase : s'.phase = s.phase ∨ s'.phase.Idle ∧ s.phase.Idle)
    (hstanding : Standing w s'.path s'.phase s'.world.tree)
    (htree : s'.world.tree = s.world.tree) : Overlaid w (front ++ s' :: back) shared' := by
  have hdrafts : s'.drafts = s.drafts := by
    unfold Shadow.drafts
    rcases hphase with hphase | ⟨hidle, hidle'⟩
    · rw [hphase]
    · rw [hidle.drafts, hidle'.drafts]
  have hpatch : s'.patch w = s.patch w := by rw [Shadow.patch, Shadow.patch, hpath, htree]
  refine h.replace hpath hshared.toAkin hstanding ?_ ?_ ?_ ?_
  · rw [hdrafts]
    exact h.nodup_middle
  · intro mine twin hwriting
    rcases hphase with hphase | ⟨hidle, -⟩
    · rw [hshared.tree, htree]
      exact h.held s (by simp) mine twin (hphase.symm.trans hwriting)
    · exact absurd hwriting (hidle mine twin)
  · intro l _
    rw [hshared.tree]
  · rw [hdrafts, hpatch, hshared.tree, h.tree_middle]

/-- **A turn that makes a draft.** -/
theorem opened {mine twin : TreeDraft} {mode m : Nat} {old c : ByteArray} {task : Task FileReport}
    {world : World} (hidle : s.phase.Idle)
    (hfile : w.tree.resolve s.path = .ok (mine.target, .file mode old))
    (hfresh : s.world.tree = w.tree) (hmine : w.Drafting mode old mine)
    (htwin : shared.Drafting mode old twin) (hunnamed : twin.unnamed = mine.unnamed)
    (hplace : w.namer.Offers twin.location) (hworld : world.tree = (w.withDraft mine m c).tree) :
    Overlaid w (front ++ ⟨s.path, .writing mine twin, task, world⟩ :: back)
      (shared.withDraft twin m c) := by
  have hdiscard := congrArg World.tree (htwin.discard m c)
  have hfind := htwin.find?_withDraft m c
  have hnone := htwin.find?_location
  have hnew : twin.location ∉ (front ++ s :: back).flatMap Shadow.drafts := by
    intro hmem
    obtain ⟨⟨m', c', hfound⟩, -⟩ := h.draft hmem
    rw [hnone] at hfound
    cases hfound
  have hfirst : w.tree.find? twin.location = none := by
    have hkind := h.kindAt_eq hnew
    rw [Node.kindAt, Node.look, hnone] at hkind
    simpa [Node.kindAt, Node.look] using hkind.symm
  have hstanding : Standing w s.path (.writing mine twin) world.tree := by
    rw [hworld]
    exact .writing hfile hmine hunnamed hplace hfirst
  have hdrafts : s.drafts = [] := hidle.drafts
  refine h.replace rfl (shared.akin_set _ _) hstanding ?_ ?_ ?_ ?_
  · have hnodup := h.nodup_middle
    rw [List.flatMap_append, List.flatMap_cons] at hnew
    rw [hdrafts, List.nil_append] at hnodup hnew
    exact List.nodup_middle.mpr (List.nodup_cons.mpr ⟨hnew, hnodup⟩)
  · intro mine' twin' hphase
    cases hphase
    rw [hfind, hworld, hmine.find?_withDraft]
  · intro l hl
    obtain ⟨m', c', hfound⟩ := h.draft_other hl
    exact Node.find?_file_alter hfound (htwin.asunder hfound).2 _
  · have hpatch : w.tree.patch s.path world.tree = s.patch w := by
      rw [Shadow.patch, hfresh, Node.patch_eq hfile (Node.resolve_eq_ok.mp hfile).2]
      refine Node.patch_eq hfile ?_
      rw [hworld, hmine.find?_target]
    have htree := h.tree_middle
    rw [hdrafts, List.nil_append] at htree
    calc (shared.withDraft twin m c).tree.clear
          (front.flatMap Shadow.drafts ++ twin.location :: back.flatMap Shadow.drafts)
        = ((shared.withDraft twin m c).tree.alter none twin.location).clear
          (front.flatMap Shadow.drafts ++ back.flatMap Shadow.drafts) :=
        Node.clear_middle fun l hl => by
          obtain ⟨m', c', hfound⟩ := h.draft_other (List.mem_append_left _ hl)
          exact htwin.asunder hfound
      _ = shared.tree.clear (front.flatMap Shadow.drafts ++ back.flatMap Shadow.drafts) :=
        congrArg (Node.clear · _) hdiscard
      _ = w.tree.settle (front.flatMap (Shadow.patch w) ++
          (w.tree.patch s.path world.tree ++ back.flatMap (Shadow.patch w))) := by
        rw [htree, hpatch]

/-! ### A task that has a draft -/

section Writing

variable {mine twin : TreeDraft} (hphase : s.phase = .writing mine twin)

include hphase

theorem asunder_other {l : Location}
    (hl : l ∈ front.flatMap Shadow.drafts ++ back.flatMap Shadow.drafts) :
    Asunder l twin.location := by
  have hnodup := h.nodup_middle
  rw [Shadow.drafts_writing hphase] at hnodup
  have hnew := (List.nodup_cons.mp (List.nodup_middle.mp hnodup)).1
  have hmem : l ∈ (front ++ s :: back).flatMap Shadow.drafts := by
    rw [List.flatMap_append, List.flatMap_cons]
    rcases List.mem_append.mp hl with hl | hl <;> simp [hl]
  exact h.asunder hmem (Shadow.mem_drafts hphase) fun heq => hnew (heq ▸ hl)

/-- The draft of a task can be taken away first. -/
theorem clear_writing (t : Node) :
    t.clear (front.flatMap Shadow.drafts ++ ([twin.location] ++ back.flatMap Shadow.drafts)) =
      (t.alter none twin.location).clear
        (front.flatMap Shadow.drafts ++ back.flatMap Shadow.drafts) :=
  Node.clear_middle fun _ hl => h.asunder_other hphase (List.mem_append_left _ hl)

/-- As long as a task writes, its file is what it was. -/
theorem find?_target {mode : Nat} {old : ByteArray}
    (hfile : w.tree.resolve s.path = .ok (mine.target, .file mode old)) :
    s.world.tree.find? mine.target = some (.file mode old) := by
  have hstanding := h.standing s (by simp)
  rw [hphase] at hstanding
  generalize s.world.tree = tree at hstanding
  cases hstanding with
  | writing hfile' hmine' hunnamed' hplace' hfree' =>
    rw [hfile] at hfile'
    cases hfile'
    exact hmine'.find?_target _ _

/-- **A turn that gives a draft other contents.** -/
theorem rewritten {mode m : Nat} {old c : ByteArray} {task : Task FileReport}
    {world shared' : World}
    (hakin : shared.Akin shared')
    (hfile : w.tree.resolve s.path = .ok (mine.target, .file mode old))
    (hmine : w.Drafting mode old mine) (hunnamed : twin.unnamed = mine.unnamed)
    (hshared : shared'.tree = shared.tree.alter (some (.file m c)) twin.location)
    (hworld : world.tree = (w.withDraft mine m c).tree) :
    Overlaid w (front ++ ⟨s.path, .writing mine twin, task, world⟩ :: back) shared' := by
  obtain ⟨⟨m', c', hfind⟩, hfirst, hplace⟩ := h.draft (Shadow.mem_drafts hphase)
  have hdrafts := Shadow.drafts_writing hphase
  have hstanding : Standing w s.path (.writing mine twin) world.tree := by
    rw [hworld]
    exact .writing hfile hmine hunnamed hplace hfirst
  refine h.replace rfl hakin hstanding ?_ ?_ ?_ ?_
  · have hnodup := h.nodup_middle
    rwa [hdrafts] at hnodup
  · intro mine' twin' hphase'
    cases hphase'
    rw [hshared, Node.find?_alter_self hfind, hworld, hmine.find?_withDraft]
  · intro l hl
    obtain ⟨m'', c'', hfound⟩ := h.draft_other hl
    rw [hshared]
    exact Node.find?_file_alter hfound (h.asunder_other hphase hl).2 _
  · have hpatch : w.tree.patch s.path world.tree = s.patch w := by
      rw [Shadow.patch, Node.patch_eq hfile (h.find?_target hphase hfile)]
      refine Node.patch_eq hfile ?_
      rw [hworld, hmine.find?_target]
    have hgone : shared'.tree.alter none twin.location =
        shared.tree.alter none twin.location := by
      obtain ⟨events, target, taken, hlocation⟩ := hplace
      rw [hshared]
      rw [hlocation] at hfind ⊢
      exact Node.alter_none_alter hfind _
    have htree := h.tree_middle
    rw [hdrafts, h.clear_writing hphase] at htree
    change shared'.tree.clear (_ ++ ([twin.location] ++ _)) =
      w.tree.settle (_ ++ (w.tree.patch s.path world.tree ++ _))
    rw [h.clear_writing hphase, hgone, htree, hpatch]

theorem nodup_without :
    (front.flatMap Shadow.drafts ++ back.flatMap Shadow.drafts).Nodup := by
  have hnodup := h.nodup_middle
  rw [Shadow.drafts_writing hphase] at hnodup
  exact (List.nodup_cons.mp (List.nodup_middle.mp hnodup)).2

/-- **A turn that gives a draft up.** -/
theorem discarded {mode : Nat} {old : ByteArray} {task : Task FileReport} {world shared' : World}
    (hakin : shared.Akin shared')
    (hfile : w.tree.resolve s.path = .ok (mine.target, .file mode old))
    (hshared : shared'.tree = shared.tree.alter none twin.location)
    (hworld : world.tree = w.tree) :
    Overlaid w (front ++ ⟨s.path, .finished, task, world⟩ :: back) shared' := by
  have hstanding : Standing w s.path .finished world.tree := by
    rw [hworld]
    exact .kept
  refine h.replace rfl hakin hstanding (h.nodup_without hphase) nofun ?_ ?_
  · intro l hl
    obtain ⟨m, c, hfound⟩ := h.draft_other hl
    rw [hshared]
    exact Node.find?_file_alter hfound (h.asunder_other hphase hl).2 _
  · have hpatch : w.tree.patch s.path world.tree = s.patch w := by
      rw [Shadow.patch, Node.patch_eq hfile (h.find?_target hphase hfile), hworld,
        Node.patch_eq hfile (Node.resolve_eq_ok.mp hfile).2]
    have htree := h.tree_middle
    rw [Shadow.drafts_writing hphase, h.clear_writing hphase] at htree
    change shared'.tree.clear (front.flatMap Shadow.drafts ++ back.flatMap Shadow.drafts) =
      w.tree.settle (_ ++ (w.tree.patch s.path world.tree ++ _))
    rw [hshared, htree, hpatch]

/-- **A turn that puts a draft in the place of its file.** -/
theorem committed {mode m : Nat} {old c : ByteArray} {task : Task FileReport}
    {world shared' : World}
    (hakin : shared.Akin shared')
    (hfile : w.tree.resolve s.path = .ok (mine.target, .file mode old))
    (hshared : shared'.tree =
      (shared.tree.alter none twin.location).alter (some (.file m c)) mine.target)
    (hworld : world.tree = w.tree.alter (some (.file m c)) mine.target) :
    Overlaid w (front ++ ⟨s.path, .finished, task, world⟩ :: back) shared' := by
  have hfirst := (Node.resolve_eq_ok.mp hfile).2
  have htarget : shared.tree.find? mine.target = some (.file mode old) := by
    rw [h.find?_file hfile, h.find?_target hphase hfile]
  have hasunder : ∀ l ∈ (front ++ s :: back).flatMap Shadow.drafts, Asunder l mine.target := by
    intro l hl
    obtain ⟨⟨m', c', hfound⟩, hfree, -⟩ := h.draft hl
    refine Node.asunder_of_files hfound htarget ?_
    rintro rfl
    rw [hfree] at hfirst
    cases hfirst
  have hothers : ∀ l ∈ front.flatMap Shadow.drafts ++ back.flatMap Shadow.drafts,
      Asunder l mine.target := by
    intro l hl
    refine hasunder l ?_
    rw [List.flatMap_append, List.flatMap_cons]
    rcases List.mem_append.mp hl with hl | hl <;> simp [hl]
  have hstanding : Standing w s.path .finished world.tree := by
    rw [hworld]
    exact .stored hfile
  refine h.replace rfl hakin hstanding (h.nodup_without hphase) nofun ?_ ?_
  · intro l hl
    obtain ⟨m', c', hfound⟩ := h.draft_other hl
    have hgone := Node.find?_file_alter hfound (h.asunder_other hphase hl).2 none
    rw [hshared, Node.find?_file_alter (hgone.trans hfound) (hothers l hl).2, hgone]
  · have hpatch : w.tree.patch s.path world.tree = [(mine.target, .file m c)] := by
      refine Node.patch_eq hfile ?_
      rw [hworld, Node.find?_alter_self hfirst]
    have htree := h.tree_middle
    have hpatching := h.patching
    simp only [List.flatMap_append, List.flatMap_cons] at hpatching
    rw [Shadow.patch, Node.patch_eq hfile (h.find?_target hphase hfile), List.singleton_append]
      at htree hpatching
    rw [Shadow.drafts_writing hphase, h.clear_writing hphase] at htree
    calc shared'.tree.clear (front.flatMap Shadow.drafts ++ back.flatMap Shadow.drafts)
        = ((shared.tree.alter none twin.location).clear
            (front.flatMap Shadow.drafts ++ back.flatMap Shadow.drafts)).alter
              (some (.file m c)) mine.target := by
          rw [hshared, Node.clear_alter hothers]
      _ = w.tree.settle (front.flatMap (Shadow.patch w) ++
            ([(mine.target, .file m c)] ++ back.flatMap (Shadow.patch w))) := by
          rw [htree]
          exact hpatching.alter_settle
      _ = w.tree.settle (front.flatMap (Shadow.patch w) ++
            (w.tree.patch s.path world.tree ++ back.flatMap (Shadow.patch w))) := by
          rw [hpatch]

end Writing

end One

end Overlaid

end Uncomment
