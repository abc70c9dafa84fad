import ConfigDoc.Compile
import ConfigDoc.Proofs.Draft.Initial
import ConfigDoc.Proofs.Queue

/-! A drain runs the jobs that are due in the order of the queue, and no job looks at the queue. -/

namespace ConfigDoc

variable {σ : Type}

namespace Session

def andThen (run : Except Error Unit × Session σ) (next : Session σ → Except Error Unit × Session σ) :
    Except Error Unit × Session σ :=
  match run with
  | (.error e, after) => (.error e, after)
  | (.ok (), after) => next after

/-- What holds where a run ends, and is kept by what is run next, holds in the end. -/
theorem andThen_keeps {P : Session σ → Prop} {run : Except Error Unit × Session σ}
    {next : Session σ → Except Error Unit × Session σ} (h : P run.2)
    (hn : ∀ after, P after → P (next after).2) : P (andThen run next).2 := by
  obtain ⟨_ | _, after⟩ := run
  · exact h
  · exact hn after h

def runAll (config : Config σ) (mode : Mode) :
    List Job → Session σ → Except Error Unit × Session σ
  | [], s => (.ok (), s)
  | job :: rest, s =>
    match runJob config mode job s with
    | (.error e, after) => (.error e, after)
    | (.ok (), after) => runAll config mode rest after

theorem runAll_append (config : Config σ) (mode : Mode) (jobs others : List Job) (s : Session σ) :
    runAll config mode (jobs ++ others) s = match runAll config mode jobs s with
      | (.error e, after) => (.error e, after)
      | (.ok (), after) => runAll config mode others after := by
  induction jobs generalizing s with
  | nil => rfl
  | cons job rest ih =>
    rw [List.cons_append, runAll, runAll]
    rcases runJob config mode job s with ⟨_ | _, after⟩
    · rfl
    · exact ih after

def runPasses (config : Config σ) (mode : Mode) :
    List (Stage × List Job) → Session σ → Except Error Unit × Session σ
  | [], s => (.ok (), s)
  | (stage, jobs) :: rest, s =>
    match runAll config mode jobs (s.record (.pass stage)) with
    | (.error e, after) => (.error e, after)
    | (.ok (), after) => runPasses config mode rest after

def withQueue (s : Session σ) (queue : Queue Job) : Session σ := { s with queue := queue }

/-- Calls with their handlers and evaluated arguments, as binding gives them whatever the queue. -/
def bound (config : Config σ) (sources : List Value) :
    List (Call Tree) → Except Error (List (BoundCall σ))
  | [] => .ok []
  | call :: rest =>
    match config.handler? call.name with
    | none => .error (.unknownDirective call.name)
    | some handler => do
      let vs ← Tree.initialItems config.interpolate .argument call.args
      let args ← vs.mapM fun v => v.resolveAll config.interpolate sources
      let others ← bound config sources rest
      pure (⟨call.name, handler, args⟩ :: others)

theorem bindCalls_eq (config : Config σ) (sources : List Value) (target : Reference)
    (calls : List (Call Tree)) (queue : Queue Job) :
    bindCalls config sources target calls queue =
      (bound config sources calls).map fun calls => (calls, queue) := by
  induction calls with
  | nil => rfl
  | cons call rest ih =>
    rw [bindCalls, bound]
    cases config.handler? call.name with
    | none => rfl
    | some handler =>
      dsimp only
      rw [Draft.evaluateArguments_eq]
      cases Tree.initialItems config.interpolate .argument call.args with
      | error e => rfl
      | ok vs =>
        dsimp only [bind, Except.bind]
        cases List.mapM (fun v => Value.resolveAll config.interpolate sources v) vs with
        | error e => rfl
        | ok args =>
          dsimp only [pure, Except.pure]
          rw [ih]
          cases bound config sources rest <;> rfl

theorem apply_withQueue (mode : Mode) (target : Reference) (call : BoundCall σ) (s : Session σ)
    (queue : Queue Job) : apply mode target call (s.withQueue queue) =
      ((apply mode target call s).1, (apply mode target call s).2.withQueue queue) := by
  have hp : ((s.withQueue queue).record (.applied call.name target s.root call.args)).perform target
      (call.handler target call.args) =
      (((s.record (.applied call.name target s.root call.args)).perform target
        (call.handler target call.args)).1,
        ((s.record (.applied call.name target s.root call.args)).perform target
          (call.handler target call.args)).2.withQueue queue) := rfl
  unfold apply
  dsimp only
  rw [show (s.withQueue queue).root = s.root from rfl, hp]
  rcases (s.record (.applied call.name target s.root call.args)).perform target
    (call.handler target call.args) with ⟨_ | _ | later, after⟩
  · rfl
  · rfl
  · cases mode <;> rfl

theorem applyAll_withQueue (mode : Mode) (target : Reference) (calls : List (BoundCall σ))
    (s : Session σ) (queue : Queue Job) : applyAll mode target calls (s.withQueue queue) =
      ((applyAll mode target calls s).1, (applyAll mode target calls s).2.withQueue queue) := by
  induction calls generalizing s with
  | nil => rfl
  | cons call rest ih =>
    rw [applyAll, applyAll, apply_withQueue]
    rcases apply mode target call s with ⟨_ | _, after⟩
    · rfl
    · exact ih after

theorem interpolate_withQueue (config : Config σ) (target : Reference) (template : Template)
    (s : Session σ) (queue : Queue Job) : interpolate config target template (s.withQueue queue) =
      ((interpolate config target template s).1,
        (interpolate config target template s).2.withQueue queue) := by
  unfold interpolate
  dsimp only [sources, withQueue]
  split <;> rfl

theorem sweep_withQueue (config : Config σ) (s : Session σ) (queue : Queue Job) :
    sweep config (s.withQueue queue) =
      ((sweep config s).1, (sweep config s).2.withQueue queue) := by
  unfold sweep
  dsimp only [sources, withQueue]
  split
  · split <;> rfl
  · rfl

theorem runJob_directives (config : Config σ) (mode : Mode) (target : Reference)
    (calls : List (Call Tree)) (s : Session σ) : runJob config mode (.directives target calls) s =
      match bound config s.sources calls with
      | .error e => (.error e, s.record (.job (.directives target calls)))
      | .ok calls' => applyAll mode target calls' (s.record (.job (.directives target calls))) := by
  unfold runJob
  dsimp only
  rw [show (s.record (.job (.directives target calls))).sources = s.sources from rfl, bindCalls_eq]
  cases bound config s.sources calls <;> rfl

/-- No job looks at the queue. -/
theorem runJob_withQueue (config : Config σ) (mode : Mode) (job : Job) (s : Session σ)
    (queue : Queue Job) : runJob config mode job (s.withQueue queue) =
      ((runJob config mode job s).1, (runJob config mode job s).2.withQueue queue) := by
  cases job with
  | interpolate target template =>
    exact interpolate_withQueue config target template (s.record _) queue
  | sweep => exact sweep_withQueue config (s.record _) queue
  | directives target calls =>
    rw [runJob_directives, runJob_directives, show (s.withQueue queue).sources = s.sources from rfl]
    cases bound config s.sources calls with
    | error e => rfl
    | ok calls' => exact applyAll_withQueue mode target calls' (s.record _) queue

theorem runAll_withQueue (config : Config σ) (mode : Mode) (jobs : List Job) (s : Session σ)
    (queue : Queue Job) : runAll config mode jobs (s.withQueue queue) =
      ((runAll config mode jobs s).1, (runAll config mode jobs s).2.withQueue queue) := by
  induction jobs generalizing s with
  | nil => rfl
  | cons job rest ih =>
    rw [runAll, runAll, runJob_withQueue]
    rcases runJob config mode job s with ⟨_ | _, after⟩
    · rfl
    · exact ih after

theorem drainFrom_of_next_none {config : Config σ} {mode : Mode} {stage : Stage}
    {cursor cursor' : Nat} {s : Session σ} {queue : Queue Job}
    (h : s.queue.next stage cursor = (none, queue, cursor')) :
    drainFrom config mode stage cursor s = (.ok (), s.withQueue queue) := by
  rw [drainFrom]
  split
  · rename_i hn
    cases hn.symm.trans h
    rfl
  · rename_i hn
    cases hn.symm.trans h

theorem drainFrom_of_next_some {config : Config σ} {mode : Mode} {stage : Stage}
    {cursor cursor' : Nat} {s : Session σ} {queue : Queue Job} {job : Job}
    (h : s.queue.next stage cursor = (some job, queue, cursor')) :
    drainFrom config mode stage cursor s = match runJob config mode job (s.withQueue queue) with
      | (.error e, after) => (.error e, after)
      | (.ok (), after) => drainFrom config mode stage cursor' after := by
  rw [drainFrom]
  split
  · rename_i hn
    cases hn.symm.trans h
  · rename_i hn
    cases hn.symm.trans h
    split
    · rename_i hr
      rw [withQueue, hr]
    · rename_i hr
      rw [withQueue, hr]

/-- A drain from a cursor on runs what is due behind it, and leaves what a drain leaves. -/
theorem drainFrom_eq (config : Config σ) (mode : Mode) (stage : Stage) (cursor : Nat)
    (s : Session σ) :
    ∃ queue, drainFrom config mode stage cursor s =
        ((runAll config mode (Queue.due stage (s.queue.tasks.drop cursor)) s).1,
          (runAll config mode (Queue.due stage (s.queue.tasks.drop cursor)) s).2.withQueue queue) ∧
      ((drainFrom config mode stage cursor s).1 = .ok () →
        queue.live = (s.queue.tasks.take cursor).filter (fun task => !task.isTaken) ++
          Queue.left stage (s.queue.tasks.drop cursor)) := by
  induction h : s.queue.tasks.length - cursor using Nat.strongRecOn generalizing cursor s with
  | ind n ih =>
    subst h
    rcases Queue.next_cases s.queue stage cursor with
      ⟨hdue, queue, cursor', hn, hl⟩ | ⟨job, queue, cursor', hn, hdue, hl⟩
    · refine ⟨queue, ?_, fun _ => ?_⟩
      · rw [drainFrom_of_next_none hn, hdue]
        rfl
      · rw [hl, Queue.left_of_due_eq_nil hdue, ← List.filter_append, List.take_append_drop]
        rfl
    · have hq := queue_runJob config mode job (s.withQueue queue)
      have hlt := Queue.next_eq_some hn
      rw [drainFrom_of_next_some hn, hdue, runAll]
      rw [runJob_withQueue] at hq ⊢
      rcases hr : runJob config mode job s with ⟨e | _, after⟩
      · exact ⟨queue, rfl, nofun⟩
      · obtain ⟨queue', hd, hlive⟩ := ih (queue.tasks.length - cursor')
          (by rw [hlt.1]; omega) cursor' (after.withQueue queue) rfl
        dsimp only
        rw [runAll_withQueue] at hd
        exact ⟨queue', hd, fun hok => (hlive hok).trans hl⟩

theorem drain_eq (config : Config σ) (mode : Mode) (stage : Stage) (s : Session σ) :
    ∃ queue, drain config mode stage s =
        ((runAll config mode (Queue.due stage s.queue.live) (s.record (.pass stage))).1,
          (runAll config mode (Queue.due stage s.queue.live)
            (s.record (.pass stage))).2.withQueue queue) ∧
      ((drain config mode stage s).1 = .ok () → queue.live = Queue.left stage s.queue.live) := by
  obtain ⟨queue, h, hl⟩ := drainFrom_eq config mode stage 0 (s.record (.pass stage))
  rw [Queue.due_live, Queue.left_live]
  exact ⟨queue, h, hl⟩

/-- The jobs that the passes of a drain run one after the other, as long as none fails. -/
def schedule : List Stage → List (Task Job) → List (Stage × List Job)
  | [], _ => []
  | stage :: rest, tasks => (stage, Queue.due stage tasks) :: schedule rest (Queue.left stage tasks)

theorem runPasses_withQueue (config : Config σ) (mode : Mode) (passes : List (Stage × List Job))
    (s : Session σ) (queue : Queue Job) : runPasses config mode passes (s.withQueue queue) =
      ((runPasses config mode passes s).1, (runPasses config mode passes s).2.withQueue queue) := by
  induction passes generalizing s with
  | nil => rfl
  | cons pass rest ih =>
    obtain ⟨stage, jobs⟩ := pass
    have hr := runAll_withQueue config mode jobs (s.record (.pass stage)) queue
    rw [runPasses, runPasses, show (s.withQueue queue).record (.pass stage) =
      (s.record (.pass stage)).withQueue queue from rfl, hr]
    rcases runAll config mode jobs (s.record (.pass stage)) with ⟨_ | _, after⟩
    · rfl
    · exact ih after

theorem drainAll_eq (config : Config σ) (mode : Mode) (stages : List Stage) (s : Session σ) :
    ∃ queue, drainAll config mode stages s =
      ((runPasses config mode (schedule stages s.queue.live) s).1,
        (runPasses config mode (schedule stages s.queue.live) s).2.withQueue queue) := by
  induction stages generalizing s with
  | nil => exact ⟨s.queue, rfl⟩
  | cons stage rest ih =>
    obtain ⟨queue, hd, hl⟩ := drain_eq config mode stage s
    rw [drainAll, schedule, runPasses, hd]
    rw [hd] at hl
    rcases ha : runAll config mode (Queue.due stage s.queue.live) (s.record (.pass stage)) with
      ⟨e | _, after⟩
    · exact ⟨queue, rfl⟩
    · rw [ha] at hl
      obtain ⟨queue', hr⟩ := ih (after.withQueue queue)
      rw [show (after.withQueue queue).queue.live = Queue.left stage s.queue.live from hl rfl,
        runPasses_withQueue] at hr
      exact ⟨queue', hr⟩

section
open Reference
variable {document : Value} {s : Session σ}

theorem sources_of_root (h : s.root = rootOf document) : s.sources = [document] := by
  have hp : Path.ofText documentName = [.key documentName] := by decide +kernel
  rw [sources, h, Value.get?, hp]
  rfl

theorem document_of_root (h : s.root = rootOf document) : s.document = document := by
  rw [Session.document, get?_eq_lookup?, h, (focuses_document.pointsTo document).lookup]
  rfl

theorem hasTemplate_rootOf (v : Value) : (rootOf v).hasTemplate = v.hasTemplate :=
  Bool.or_false _

/-- A sweep resolves what is left in the document, and writes it back. -/
theorem sweep_eq (config : Config σ) (h : s.root = rootOf document) :
    sweep config s = if document.hasTemplate then
      match document.resolveAll config.interpolate [document] with
      | .ok v => (.ok (), { s with root := rootOf v })
      | .error e => (.error e, s)
    else (.ok (), s) := by
  rw [sweep, sources_of_root h, h, focuses_document.value]
  dsimp only
  split
  · cases document.resolveAll config.interpolate [document] with
    | error e => rfl
    | ok v =>
      dsimp only [bind, Except.bind]
      rw [focuses_document.set]
  · rfl

/-- Without templates a sweep changes nothing. -/
theorem runAll_sweep (config : Config σ) (mode : Mode) (h : s.root = rootOf document)
    (ht : document.hasTemplate = false) : ∃ after, runAll config mode [.sweep] s = (.ok (), after) ∧
      after.root = s.root ∧ after.host = s.host := by
  have hs := sweep_eq config (s := s.record (.job .sweep)) h
  refine ⟨s.record (.job .sweep), ?_, rfl, rfl⟩
  rw [runAll, runJob, hs, ht]
  rfl

end

/-! ### The passes of a compilation -/

def inPass (stage : Stage) (jobs : List Job) : List Job :=
  jobs.filter fun job => job.stage.runsIn stage

private theorem due_once (stage : Stage) (jobs : List Job) :
    Queue.due stage (Queue.empty.addAll jobs).tasks = inPass stage jobs := by
  rw [Queue.addAll, Queue.empty, List.nil_append, inPass]
  induction jobs with
  | nil => rfl
  | cons job rest ih =>
    cases hj : job.stage.runsIn stage <;> simp_all [Queue.due, Task.payloadIn?]

private theorem left_once (stage : Stage) (jobs : List Job) :
    Queue.left stage (Queue.empty.addAll jobs).tasks =
      (Queue.empty.addAll (jobs.filter fun job => !job.stage.runsIn stage)).tasks := by
  simp [Queue.left, Queue.addAll, Queue.empty, List.filter_map, Function.comp_def, Task.isTaken]

private theorem live_once (jobs : List Job) : (Queue.addPersistent (Queue.empty.addAll jobs)
    .interpolation .sweep).live = (Queue.empty.addAll jobs).tasks ++
      [⟨.interpolation, true, some .sweep⟩] := by
  simp [Queue.live, Queue.addPersistent, Queue.addAll, Queue.empty, List.filter_map,
    Function.comp_def, Task.isTaken]

theorem waiting_draft (jobs : List Job) :
    ((Queue.empty.addAll jobs).addPersistent .interpolation .sweep).waiting = jobs ++ [.sweep] := by
  simp [Queue.waiting, Queue.addPersistent, Queue.addAll, Queue.empty, List.filterMap_map]

theorem due_directives (jobs : List Job) : Queue.due .directives
    ((Queue.empty.addAll jobs).addPersistent .interpolation .sweep).tasks =
      inPass .directives jobs := by
  rw [Queue.addPersistent, Queue.due_append, due_once]
  exact List.append_nil _

/-- The jobs of a draft in the order in which a compilation runs them. -/
def plan (jobs : List Job) : List (Stage × List Job) :=
  [(.interpolation, inPass .interpolation jobs ++ [.sweep]), (.directives, inPass .directives jobs),
    (.interpolation, [.sweep])]

private theorem schedule_passes (jobs : List Job) :
    schedule passes (Queue.addPersistent (Queue.empty.addAll jobs) .interpolation .sweep).live =
      plan jobs := by
  have hs : inPass .directives (jobs.filter fun job => !job.stage.runsIn .interpolation) =
      inPass .directives jobs := by
    rw [inPass, inPass, List.filter_filter]
    apply List.filter_congr
    intro job _
    cases job <;> rfl
  have hn : ((jobs.filter fun job => !job.stage.runsIn .interpolation).filter
      fun job => !job.stage.runsIn .directives) = [] := by
    rw [List.filter_filter, List.filter_eq_nil_iff]
    intro job _
    cases job <;> exact (by decide : ¬ false = true)
  simp only [passes, schedule, live_once, Queue.left_append, Queue.due_append, due_once, left_once,
    hs, hn]
  exact congrArg (fun jobs' => [_, (Stage.directives, jobs'), _]) (List.append_nil _)

/-- The session in which a document has been written, apart from its queue. -/
def start (host : σ) (v : Value) : Session σ :=
  ⟨Reference.rootOf v, Queue.empty, host, []⟩

end Session

namespace Config
open Session

theorem runTree_of_error (config : Config σ) (mode : Mode) {tree : Tree} (host : σ) {e : Error}
    (h : Draft.ofTree config.interpolate tree = .error e) :
    config.runTree mode tree host = (.error e, ⟨Reference.emptyRoot, Queue.empty, host, []⟩) := by
  rw [runTree, h]

theorem compileTree_of_error (config : Config σ) (mode : Mode) {tree : Tree} (host : σ) {e : Error}
    {entries : List (Entry Tree)} (h : tree.entries? = some entries)
    (hv : (Tree.block entries).initial config.interpolate .document = .error e) :
    config.compileTree mode tree host = (.error e, host) := by
  rw [compileTree, runTree_of_error config mode host (e := e) (by rw [Draft.ofTree_eq _ h, hv]; rfl)]

/-- A compilation writes the document and then runs the jobs that this queued, pass by pass. -/
theorem runTree_eq (config : Config σ) (mode : Mode) {tree : Tree} (host : σ) {v : Value}
    {entries : List (Entry Tree)} (h : tree.entries? = some entries)
    (hv : (Tree.block entries).initial config.interpolate .document = .ok v) :
    ∃ queue, config.runTree mode tree host =
      match runPasses config mode
        (plan ((Tree.block entries).jobs config.interpolate Reference.document)) (start host v) with
      | (.error e, s) => (.error e, s.withQueue queue)
      | (.ok (), s) => (.ok s.document, s.withQueue queue) := by
  have hp := schedule_passes ((Tree.block entries).jobs config.interpolate Reference.document)
  rw [runTree, Draft.ofTree_eq _ h, hv]
  generalize Queue.addPersistent (Queue.empty.addAll
    ((Tree.block entries).jobs config.interpolate Reference.document)) .interpolation .sweep =
      queue at hp ⊢
  obtain ⟨queue', hd⟩ := drainAll_eq config mode passes
    (ofDraft host ⟨Reference.rootOf v, queue⟩)
  have hs : ofDraft host ⟨Reference.rootOf v, queue⟩ =
      (start host v).withQueue queue := rfl
  refine ⟨queue', ?_⟩
  simp only [Except.map, hd]
  rw [hs, show ((start host v).withQueue queue).queue = queue from rfl, hp, runPasses_withQueue]
  rcases runPasses config mode (plan ((Tree.block entries).jobs config.interpolate
    Reference.document)) (start host v) with ⟨_ | _, s⟩ <;> rfl

/-- Either the tree is refused and nothing happens, or what happens is what its jobs do, whatever
becomes of the queue. -/
theorem runTree_split (config : Config σ) (mode : Mode) (tree : Tree) (host : σ) :
    (∃ e, Draft.ofTree config.interpolate tree = .error e ∧
      config.runTree mode tree host = (.error e, ⟨Reference.emptyRoot, Queue.empty, host, []⟩)) ∨
    ∃ entries v queue, tree.entries? = some entries ∧
      (Tree.block entries).initial config.interpolate .document = .ok v ∧
      ∀ run, run = runPasses config mode
          (plan ((Tree.block entries).jobs config.interpolate .document)) (start host v) →
        config.runTree mode tree host = (run.1.map fun _ => run.2.document, run.2.withQueue queue) := by
  cases hd : Draft.ofTree config.interpolate tree with
  | error e => exact .inl ⟨e, rfl, runTree_of_error config mode host hd⟩
  | ok draft =>
    cases hr : tree.entries? with
    | none =>
      rw [Draft.ofTree, hr] at hd
      cases hd
    | some entries =>
      rw [Draft.ofTree_eq _ hr] at hd
      obtain ⟨v, hv, -⟩ := map_eq_ok_iff.1 hd
      obtain ⟨queue, hrun⟩ := runTree_eq config mode host hr hv
      refine .inr ⟨entries, v, queue, rfl, hv, fun run he => ?_⟩
      rw [hrun, ← he]
      rcases run with ⟨_ | _, s⟩ <;> rfl

theorem runTree_cases (config : Config σ) (mode : Mode) (tree : Tree) (host : σ) :
    (∃ e, config.runTree mode tree host = (.error e, ⟨Reference.emptyRoot, Queue.empty, host, []⟩)) ∨
    ∃ entries v, tree.entries? = some entries ∧
      (config.runTree mode tree host).2.journal = (runPasses config mode
        (plan ((Tree.block entries).jobs config.interpolate .document)) (start host v)).2.journal ∧
      ∀ document, (config.runTree mode tree host).1 = .ok document → (runPasses config mode
        (plan ((Tree.block entries).jobs config.interpolate .document)) (start host v)).1 = .ok () := by
  rcases runTree_split config mode tree host with ⟨e, -, h⟩ | ⟨entries, v, queue, hr, -, h⟩
  · exact .inl ⟨e, h⟩
  · rw [h _ rfl]
    refine .inr ⟨entries, v, hr, rfl, fun document hok => ?_⟩
    obtain ⟨_, hrun, -⟩ := map_eq_ok_iff.1 hok
    exact hrun

theorem compileTree_eq (config : Config σ) (mode : Mode) {tree : Tree} (host : σ) {v : Value}
    {entries : List (Entry Tree)} (h : tree.entries? = some entries)
    (hv : (Tree.block entries).initial config.interpolate .document = .ok v) :
    config.compileTree mode tree host =
      match runPasses config mode
        (plan ((Tree.block entries).jobs config.interpolate Reference.document)) (start host v) with
      | (.error e, s) => (.error e, s.host)
      | (.ok (), s) => (.ok s.document, s.host) := by
  obtain ⟨queue, hr⟩ := runTree_eq config mode host h hv
  rw [compileTree, hr]
  rcases runPasses config mode (plan ((Tree.block entries).jobs config.interpolate
    Reference.document)) (start host v) with ⟨_ | _, s⟩ <;> rfl

end Config

end ConfigDoc
