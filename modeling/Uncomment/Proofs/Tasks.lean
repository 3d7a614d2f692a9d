/-
# Tasks that take turns

A task is an activity taken apart into what it asks of the machine, one request after the other,
and what it does with each reply. Some tasks that work in one world take turns: at each turn one of
them, whichever it is, has its next request performed. Every run of a pool comes to an end, and to
let each task finish before the next one starts is one of the runs. The task for a file keeps to a
discipline, and takes its draft as it comes: a copy that was given another name for its draft makes
the same requests.

Key definitions: `Stage`, `Request`, `Task`, `Task.run`, `Twins`, `Pool`, `Pool.Step`.
Main statements: `Task.run_processFile`, `twins_processFile`, `Pool.acc`, `Pool.reaches_in_order`.
-/
import Mathlib.Logic.Hydra
import Mathlib.Tactic.Abel
import Uncomment.Proofs.Batches

namespace Uncomment

open Relation (ReflTransGen CutExpand)

/-! ### Requests -/

/-- What is done with a draft until it has the place of its file. -/
inductive Stage where
  | fill (text : String)
  | flush
  | protect
  | commit

/-- Something that is asked of the machine. -/
inductive Request where
  | survey (wants : String → Bool) (path : String)
  | read (path : String)
  | draft (path : String)
  | work (stage : Stage) (draft : TreeDraft)
  | discard (draft : TreeDraft)
  | note (event : Event)

/-- What is done with a draft in a world. -/
def Stage.perform (d : TreeDraft) : Stage → Session (Except IoError Unit)
  | fill text => Host.fill (m := Session) d text
  | flush => Host.flush (m := Session) d
  | protect => Host.protect (m := Session) d
  | commit => Host.commit (m := Session) d

namespace Request

/-- What the machine replies to a request. -/
abbrev Reply : Request → Type
  | survey _ _ => Except IoError Listing
  | read _ => Except IoError ByteArray
  | draft _ => Except IoError TreeDraft
  | work _ _ => Except IoError Unit
  | discard _ => Unit
  | note _ => Unit

/-- What is done in a world upon a request. -/
def perform : (r : Request) → Session r.Reply
  | survey wants path => Host.survey (m := Session) wants path
  | read path => Host.read (m := Session) path
  | draft path => Host.draft (m := Session) path
  | work stage d => stage.perform d
  | discard d => Host.discard (m := Session) d
  | note e => Host.note (m := Session) e

end Request

/-! ### Tasks -/

/-- An activity as the requests that it makes, each of which waits for the reply. -/
inductive Task (α : Type) where
  | done (a : α)
  | ask (r : Request) (next : r.Reply → Task α)

namespace Task

variable {α β : Type}

/-- One task after the other. -/
def bind (f : α → Task β) : Task α → Task β
  | done a => f a
  | ask r next => ask r fun reply => (next reply).bind f

instance : Monad Task where
  pure := done
  bind t f := t.bind f

/-- A task that makes one request. -/
def request (r : Request) : Task r.Reply := ask r done

instance : Host Task where
  Draft := TreeDraft
  survey wants path := request (.survey wants path)
  read path := request (.read path)
  draft path := request (.draft path)
  fill d text := request (.work (.fill text) d)
  flush d := request (.work .flush d)
  protect d := request (.work .protect d)
  commit d := request (.work .commit d)
  discard d := request (.discard d)
  note e := request (.note e)

/-- A task that has the machine for itself. -/
def run : Task α → Session α
  | done a => pure a
  | ask r next => fun w => (next (w.gives r.perform)).run (w.after r.perform)

@[simp]
theorem run_pure (a : α) : (pure a : Task α).run = pure a := rfl

@[simp]
theorem run_request (r : Request) : (request r).run = r.perform := rfl

@[simp]
theorem run_bind (t : Task α) (f : α → Task β) :
    (t >>= f).run = t.run >>= fun a => (f a).run := by
  induction t with
  | done a => rfl
  | ask r next ih =>
    funext w
    exact congrFun (ih (w.gives r.perform)) (w.after r.perform)

theorem bind_assoc {γ : Type} (t : Task α) (f : α → Task β) (g : β → Task γ) :
    t >>= f >>= g = t >>= fun a => f a >>= g := by
  induction t with
  | done a => rfl
  | ask r next ih => exact congrArg (Task.ask r) (funext ih)

section Process

variable (o : Options) (path : String)

theorem run_andThen (t : Task (Except IoError α)) (f : α → ExceptT IoError Task β) :
    (ExceptT.mk t >>= f).run.run =
      (ExceptT.mk t.run >>= fun a => ExceptT.mk (f a).run.run : ExceptT IoError Session β).run := by
  refine (run_bind t (ExceptT.bindCont f)).trans ?_
  funext w
  change (ExceptT.bindCont f (t.run w).1).run (t.run w).2 =
    ExceptT.bindCont (fun a => ExceptT.mk (f a).run.run) (t.run w).1 (t.run w).2
  cases (t.run w).1 <;> rfl

theorem run_completeDraft (d : TreeDraft) (text : String) :
    (completeDraft (m := Task) d text).run = completeDraft (m := Session) d text := by
  unfold completeDraft
  rw [run_andThen]
  simp only [run_andThen]
  rfl

theorem run_replaceFile (text : String) :
    (replaceFile (m := Task) path text).run = replaceFile (m := Session) path text := by
  unfold replaceFile
  rw [run_bind]
  refine congrArg _ (funext fun drafted => ?_)
  cases drafted with
  | error e => rfl
  | ok d =>
    change (completeDraft (m := Task) d text >>= _).run = completeDraft (m := Session) d text >>= _
    rw [run_bind, run_completeDraft]
    refine congrArg _ (funext fun completed => ?_)
    cases completed <;> rfl

theorem run_saveChange (source text : String) :
    (saveChange (m := Task) o path source text).run =
      saveChange (m := Session) o path source text := by
  unfold saveChange
  cases o.dryRun with
  | true => rfl
  | false =>
    simp only [Bool.false_eq_true, if_false]
    rw [run_bind, run_replaceFile]
    refine congrArg _ (funext fun stored => ?_)
    cases stored <;> rfl

theorem run_notes {ι : Type} (event : ι → Event) (is : List ι) :
    (is.forM fun i => Host.note (m := Task) (event i)).run =
      is.forM fun i => Host.note (m := Session) (event i) := by
  induction is with
  | nil => rfl
  | cons i is ih =>
    refine (run_bind _ _).trans ?_
    rw [ih]
    rfl

theorem run_processText (source : String) :
    (processText (m := Task) o path source).run = processText (m := Session) o path source := by
  unfold processText
  by_cases hchange : (o.clean source).text = source
  all_goals
    simp only [hchange, if_true, if_false, run_bind, run_pure, run_saveChange]
    refine congrArg _ (funext fun outcome => ?_)
    cases outcome with
    | failed failure => rfl
    | _ =>
      simp only [run_bind, run_notes]
      rfl

/-- **A task for a file that has the machine for itself processes the file.** -/
theorem run_processFile :
    (processFile (m := Task) o path).run = processFile (m := Session) o path := by
  unfold processFile
  rw [run_bind]
  refine congrArg _ (funext fun contents => ?_)
  cases contents with
  | error e => rfl
  | ok bytes =>
    change Task.run (match String.fromUTF8? bytes with | _ => _) = _
    cases htext : String.fromUTF8? bytes with
    | none =>
      simp only [htext]
      rfl
    | some source =>
      simp only [htext]
      exact run_processText o path source

end Process

end Task

/-! ### Two copies of a task -/

/-- How far a task for a file has got. While it writes, it has a draft; two copies of it may have
drafts of different names. -/
inductive Phase where
  | fresh
  | informed
  | writing (mine twin : TreeDraft)
  | finished

/-- No draft is there. -/
def Phase.Idle (phase : Phase) : Prop := ∀ mine twin, phase ≠ .writing mine twin

/-- Two copies of a task for a file that make the same requests, but for the names of their drafts.
The file is read once, a draft is asked for once after that, and a draft is not left behind. -/
inductive Twins {α : Type} (path : String) : Phase → Task α → Task α → Prop
  | done (phase : Phase) (hidle : phase.Idle) (a : α) :
    Twins path phase (.done a) (.done a)
  | note {phase : Phase} {next next' : Unit → Task α} (e : Event)
    (h : Twins path phase (next ()) (next' ())) :
    Twins path phase (.ask (.note e) next) (.ask (.note e) next')
  | read {next next' : Except IoError ByteArray → Task α}
    (hfailed : ∀ e, Twins path .finished (next (.error e)) (next' (.error e)))
    (hread : ∀ bytes, Twins path .informed (next (.ok bytes)) (next' (.ok bytes))) :
    Twins path .fresh (.ask (.read path) next) (.ask (.read path) next')
  | draft {next next' : Except IoError TreeDraft → Task α}
    (hfailed : ∀ e, Twins path .finished (next (.error e)) (next' (.error e)))
    (hmade : ∀ mine twin, Twins path (.writing mine twin) (next (.ok mine)) (next' (.ok twin))) :
    Twins path .informed (.ask (.draft path) next) (.ask (.draft path) next')
  | work {mine twin : TreeDraft} {next next' : Except IoError Unit → Task α} {stage : Stage}
    (hstage : stage ≠ .commit)
    (h : ∀ reply, Twins path (.writing mine twin) (next reply) (next' reply)) :
    Twins path (.writing mine twin) (.ask (.work stage mine) next) (.ask (.work stage twin) next')
  | commit {mine twin : TreeDraft} {next next' : Except IoError Unit → Task α}
    (hfailed : ∀ e, Twins path (.writing mine twin) (next (.error e)) (next' (.error e)))
    (hdone : Twins path .finished (next (.ok ())) (next' (.ok ()))) :
    Twins path (.writing mine twin) (.ask (.work .commit mine) next)
      (.ask (.work .commit twin) next')
  | discard {mine twin : TreeDraft} {next next' : Unit → Task α}
    (h : Twins path .finished (next ()) (next' ())) :
    Twins path (.writing mine twin) (.ask (.discard mine) next) (.ask (.discard twin) next')

namespace Twins

variable {α : Type} {path : String} {phase : Phase}

theorem finished (a : α) : Twins path .finished (pure a : Task α) (pure a) :=
  .done .finished (nofun) a

theorem notes {ι : Type} (event : ι → Event) (is : List ι) {next : PUnit → Task α}
    (h : Twins path phase (next ⟨⟩) (next ⟨⟩)) :
    Twins path phase ((is.forM fun i => Host.note (m := Task) (event i)) >>= next)
      ((is.forM fun i => Host.note (m := Task) (event i)) >>= next) := by
  induction is with
  | nil => exact h
  | cons i is ih => exact .note (event i) ih

theorem completeDraft {mine twin : TreeDraft} (text : String)
    {next next' : Except IoError Unit → Task α}
    (hfailed : ∀ e, Twins path (.writing mine twin) (next (.error e)) (next' (.error e)))
    (hdone : Twins path .finished (next (.ok ())) (next' (.ok ()))) :
    Twins path (.writing mine twin) (Uncomment.completeDraft (m := Task) mine text >>= next)
      (Uncomment.completeDraft (m := Task) twin text >>= next') := by
  refine .work nofun fun filled => ?_
  cases filled with
  | error e => exact hfailed e
  | ok =>
    refine .work nofun fun flushed => ?_
    cases flushed with
    | error e => exact hfailed e
    | ok =>
      refine .work nofun fun guarded => ?_
      cases guarded with
      | error e => exact hfailed e
      | ok => exact .commit hfailed hdone

theorem replaceFile (text : String) {next : Except IoError Unit → Task α}
    (h : ∀ stored, Twins path .finished (next stored) (next stored)) :
    Twins path .informed (Uncomment.replaceFile (m := Task) path text >>= next)
      (Uncomment.replaceFile (m := Task) path text >>= next) := by
  refine .draft (fun e => h (.error e)) fun mine twin => ?_
  change Twins path _ ((Uncomment.completeDraft (m := Task) mine text >>= _) >>= next)
    ((Uncomment.completeDraft (m := Task) twin text >>= _) >>= next)
  rw [Task.bind_assoc, Task.bind_assoc]
  exact completeDraft text (fun e => .discard (h (.error e))) (h (.ok ()))

theorem saveChange (o : Options) (source text : String) {next : Outcome → Task α}
    (h : ∀ phase : Phase, phase.Idle → ∀ outcome, Twins path phase (next outcome) (next outcome)) :
    Twins path .informed (Uncomment.saveChange (m := Task) o path source text >>= next)
      (Uncomment.saveChange (m := Task) o path source text >>= next) := by
  unfold Uncomment.saveChange
  cases o.dryRun with
  | true => exact .note _ (h .informed nofun _)
  | false =>
    change Twins path _ ((Uncomment.replaceFile (m := Task) path text >>= _) >>= next)
      ((Uncomment.replaceFile (m := Task) path text >>= _) >>= next)
    rw [Task.bind_assoc]
    refine replaceFile text fun stored => ?_
    cases stored with
    | error e => exact .note _ (h .finished nofun _)
    | ok => exact .note _ (h .finished nofun _)

theorem processText (o : Options) (source : String) :
    Twins path .informed (Uncomment.processText (m := Task) o path source)
      (Uncomment.processText o path source) := by
  unfold Uncomment.processText
  by_cases hchange : (o.clean source).text = source
  · simp only [hchange, if_true]
    exact notes _ _ (.done .informed nofun _)
  · simp only [hchange, if_false]
    refine saveChange o source _ fun phase hidle outcome => ?_
    cases outcome with
    | failed failure => exact .done phase hidle _
    | _ => exact notes _ _ (.done phase hidle _)

end Twins

/-- **The task for a file does not depend on the name of its draft.** -/
theorem twins_processFile (o : Options) (path : String) :
    Twins path .fresh (processFile (m := Task) o path) (processFile o path) := by
  unfold processFile
  refine .read (fun e => .note _ (.finished _)) fun bytes => ?_
  dsimp only [Task.bind]
  cases String.fromUTF8? bytes with
  | none => exact .note _ (.done .informed nofun _)
  | some source =>
    exact .processText o source

/-! ### Pools -/

/-- Some tasks that work in one world. -/
structure Pool (α : Type) where
  tasks : List (Task α)
  world : World

namespace Pool

variable {α : Type}

/-- One of the tasks has its next request performed. -/
inductive Step : Pool α → Pool α → Prop
  | turn (before after : List (Task α)) (r : Request) (next : r.Reply → Task α) (w : World) :
    Step ⟨before ++ .ask r next :: after, w⟩
      ⟨before ++ next (w.gives r.perform) :: after, w.after r.perform⟩

/-- A task is further on after each reply. -/
inductive Onward : Task α → Task α → Prop
  | reply (r : Request) (next : r.Reply → Task α) (reply : r.Reply) :
    Onward (next reply) (.ask r next)

theorem wellFounded_onward : WellFounded (Onward (α := α)) := by
  refine ⟨fun t => ?_⟩
  induction t with
  | done a => exact ⟨_, fun _ h => nomatch h⟩
  | ask r next ih =>
    refine ⟨_, fun t h => ?_⟩
    cases h with
    | reply r next reply => exact ih reply

/-- **Every run comes to an end**, whichever tasks take the turns. -/
theorem acc (p : Pool α) : Acc (fun p' p => Step p p') p := by
  have hwf : WellFounded fun p' p : Pool α =>
      CutExpand Onward (p'.tasks : Multiset (Task α)) (p.tasks : Multiset (Task α)) :=
    InvImage.wf _ wellFounded_onward.cutExpand
  refine Subrelation.accessible (fun h => ?_) (hwf.apply p)
  cases h with
  | turn before after r next w =>
    refine ⟨{next (w.gives r.perform)}, .ask r next, ?_, ?_⟩
    · intro t ht
      cases Multiset.mem_singleton.mp ht
      exact .reply r next _
    · simp only [← Multiset.coe_add, ← Multiset.cons_coe, ← Multiset.singleton_add]
      abel

/-- A task can take turns until it is done, while the others wait. -/
theorem reaches_done (before after : List (Task α)) (t : Task α) (w : World) :
    ReflTransGen Step ⟨before ++ t :: after, w⟩
      ⟨before ++ .done (t.run w).1 :: after, (t.run w).2⟩ := by
  induction t generalizing w with
  | done a => exact .refl
  | ask r next ih => exact .head (.turn before after r next w) (ih _ _)

/-- **One run is to process the files in order.** -/
theorem reaches_in_order (o : Options) (w : World) (paths : List String) :
    ReflTransGen Step ⟨paths.map (processFile o), w⟩
      ⟨(w.gives (processFiles o paths)).map .done, w.after (processFiles o paths)⟩ := by
  suffices h : ∀ before, ReflTransGen Step ⟨before ++ paths.map (processFile o), w⟩
      ⟨before ++ (w.gives (processFiles o paths)).map .done, w.after (processFiles o paths)⟩ from
    h []
  induction paths generalizing w with
  | nil => exact fun _ => .refl
  | cons path paths ih =>
    intro before
    have hfirst := reaches_done before (paths.map (processFile o)) (processFile o path) w
    rw [Task.run_processFile] at hfirst
    have hrest := ih (w.after (processFile o path))
      (before ++ [.done (w.gives (processFile o path))])
    rw [gives_processFiles_cons, after_processFiles_cons]
    simp only [List.append_assoc, List.singleton_append] at hrest
    exact hfirst.trans hrest

end Pool

end Uncomment
