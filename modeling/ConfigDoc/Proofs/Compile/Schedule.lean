import ConfigDoc.Proofs.Draft.Members
import ConfigDoc.Proofs.Session.Journal

/-! Which jobs a compilation runs, and when: those of the draft, each in its one pass, and the sweep
at the end of the first and of the third. Nothing is queued on the way. -/

namespace ConfigDoc

variable {σ : Type}

def Event.step? : Event → Option Event
  | .pass stage => some (.pass stage)
  | .job work => some (.job work)
  | _ => none

namespace Session

def steps (s : Session σ) : List Event := s.journal.filterMap Event.step?

def agenda (passes : List (Stage × List Job)) : List Event :=
  passes.flatMap fun pass => .pass pass.1 :: pass.2.map .job

variable {config : Config σ} {mode : Mode} {s : Session σ}

theorem steps_apply (mode : Mode) (target : Reference) (call : BoundCall σ) (s : Session σ) :
    (apply mode target call s).2.steps = s.steps := by
  rcases apply_cases target call s with ⟨result, after, h, hj⟩ | ⟨later, after, hb, ha, hj⟩
  · rw [h, steps, hj, List.filterMap_append]
    exact List.append_nil s.steps
  · have hs : after.steps = s.steps := by
      rw [steps, hj, List.filterMap_append]
      exact List.append_nil s.steps
    cases mode with
    | blocking => rw [hb, hs]
    | awaiting =>
      rw [ha, ← hs]
      rfl

theorem steps_applyAll (mode : Mode) (target : Reference) (calls : List (BoundCall σ))
    (s : Session σ) : (applyAll mode target calls s).2.steps = s.steps := by
  induction calls generalizing s with
  | nil => rfl
  | cons call rest ih =>
    exact andThen_keeps (P := fun after => after.steps = s.steps) (steps_apply mode target call s)
      fun after ha => (ih after).trans ha

/-- A job is one step, whether it fails or not. -/
theorem steps_runJob (config : Config σ) (mode : Mode) (job : Job) (s : Session σ) :
    (runJob config mode job s).2.steps = s.steps ++ [.job job] := by
  have hr : (s.record (.job job)).steps = s.steps ++ [.job job] := by
    rw [steps, record, List.filterMap_append]
    rfl
  rw [← hr]
  cases job with
  | interpolate target template =>
    exact congrArg (List.filterMap Event.step?) (journal_interpolate config target template _)
  | sweep => exact congrArg (List.filterMap Event.step?) (journal_sweep config _)
  | directives target calls =>
    rw [runJob_directives]
    split
    · rfl
    · exact steps_applyAll mode target _ _

theorem traces_steps (config : Config σ) (mode : Mode) (job : Job) (s : Session σ) :
    Traces Event.step? [.job job] s (runJob config mode job s) :=
  traces_of_eq (steps_runJob config mode job s)

theorem steps_runPasses (config : Config σ) (mode : Mode) (passes : List (Stage × List Job))
    (s : Session σ) : Traces Event.step? (agenda passes) s (runPasses config mode passes s) := by
  have ht := traces_runPasses (traces_steps config mode) passes s
  simp only [← List.map_eq_flatMap] at ht
  exact ht

/-- A drain runs what was due when it began, one job after the other up to the first that fails, and
then it ends. -/
theorem steps_drain (config : Config σ) (mode : Mode) (stage : Stage) (s : Session σ) :
    Traces Event.step? (.pass stage :: (Queue.due stage s.queue.live).map .job) s
      (drain config mode stage s) := by
  obtain ⟨queue, hd, -⟩ := drain_eq config mode stage s
  have ht := traces_runAll (traces_steps config mode) (Queue.due stage s.queue.live)
    (s.record (.pass stage))
  rw [← List.map_eq_flatMap] at ht
  rw [hd]
  have hr := ht.record
  exact ⟨hr.start, hr.whole⟩

/-- What handing out keeps is kept by a drain, and a drain that succeeds ends where nothing was left
to be handed out. -/
theorem drainFrom_keeps (config : Config σ) (mode : Mode) {stage : Stage} {P : Queue Job → Prop}
    (hn : ∀ queue cursor, P queue → P (queue.next stage cursor).2.1) (cursor : Nat) (s : Session σ)
    (h : P s.queue) :
    P (drainFrom config mode stage cursor s).2.queue ∧
      ((drainFrom config mode stage cursor s).1 = .ok () → ∃ last i j, P last ∧
        last.next stage i = (none, (drainFrom config mode stage cursor s).2.queue, j)) := by
  induction hk : s.queue.tasks.length - cursor using Nat.strongRecOn generalizing cursor s with
  | ind n ih =>
    subst hk
    have hnext := hn s.queue cursor h
    rcases hq : s.queue.next stage cursor with ⟨_ | job, queue, cursor'⟩ <;> rw [hq] at hnext
    · rw [drainFrom_of_next_none hq]
      exact ⟨hnext, fun _ => ⟨s.queue, cursor, cursor', h, hq⟩⟩
    · have hj := queue_runJob config mode job (s.withQueue queue)
      have hlt := Queue.next_eq_some hq
      rw [drainFrom_of_next_some hq]
      rcases hr : runJob config mode job (s.withQueue queue) with ⟨e | _, after⟩ <;>
        rw [hr] at hj <;> replace hj : after.queue = queue := hj
      · exact ⟨hj ▸ hnext, nofun⟩
      · exact ih (after.queue.tasks.length - cursor') (by rw [hj, hlt.1]; omega) cursor' after
          (hj ▸ hnext) rfl

/-- Whatever is queued after a drain was queued before it. -/
theorem live_drain (config : Config σ) (mode : Mode) (stage : Stage) (s : Session σ) :
    (drain config mode stage s).2.queue.live.Sublist s.queue.live :=
  (drainFrom_keeps config mode (P := fun queue => queue.live.Sublist s.queue.live)
    (fun queue cursor h => (queue.live_next stage cursor).trans h) 0 (s.record (.pass stage))
    (List.Sublist.refl _)).1

/-- A drain that succeeds leaves no empty slots. -/
theorem queue_drain {stage : Stage} {after : Session σ} (hc : s.queue.Counted)
    (h : drain config mode stage s = (.ok (), after)) :
    after.queue = ⟨after.queue.live, 0⟩ ∧ after.queue.live = Queue.left stage s.queue.live := by
  constructor
  · obtain ⟨-, hend⟩ := drainFrom_keeps config mode (P := Queue.Counted)
      (fun queue cursor h => h.next stage cursor) 0 (s.record (.pass stage)) hc
    rw [show drainFrom config mode stage 0 (s.record (.pass stage)) = (.ok (), after) from h] at hend
    obtain ⟨last, i, j, hlast, hnone⟩ := hend rfl
    rw [hlast.next_none hnone, Queue.live_live]
  · obtain ⟨queue, hd, hl⟩ := drain_eq config mode stage s
    rw [h] at hd hl
    rw [← hl rfl, (Prod.mk.inj hd).2]
    rfl

theorem queue_drainAll {stage : Stage} {rest : List Stage} {after : Session σ}
    (hc : s.queue.Counted) (h : drainAll config mode (stage :: rest) s = (.ok (), after)) :
    after.queue = ⟨(stage :: rest).foldl (fun tasks stage => Queue.left stage tasks) s.queue.live,
      0⟩ := by
  induction rest generalizing stage s with
  | nil =>
    rw [drainAll] at h
    split at h
    · cases h
    · rename_i hd
      cases h
      obtain ⟨hq, hl⟩ := queue_drain hc hd
      rw [hq, hl]
      rfl
  | cons next rest ih =>
    rw [drainAll] at h
    split at h
    · cases h
    · rename_i mid hd
      obtain ⟨hq, hl⟩ := queue_drain hc hd
      have hmid : mid.queue.Counted := by
        rw [hq]
        exact Queue.counted_live _
      rw [ih hmid h, hl]
      rfl

/-- Every job of a draft belongs to one pass. -/
theorem perm_inPass (jobs : List Job) :
    (inPass .interpolation jobs ++ inPass .directives jobs).Perm jobs := by
  have hn : inPass .directives jobs = jobs.filter fun job => !job.stage.runsIn .interpolation :=
    List.filter_congr fun job _ => by cases job <;> rfl
  rw [hn]
  exact List.filter_append_perm _ _

/-- After the three passes nothing waits but the sweep. -/
theorem left_passes (jobs : List Job) : passes.foldl (fun tasks stage => Queue.left stage tasks)
    ((Queue.empty.addAll jobs).addPersistent .interpolation .sweep).live =
      [⟨.interpolation, true, some .sweep⟩] := by
  have hpass : ∀ job : Job, job.stage.runsIn .interpolation = false →
      job.stage.runsIn .directives = false → job.stage.runsIn .interpolation = true := by
    intro job
    cases job <;> simp [Job.stage, Stage.runsIn]
  simpa [passes, Queue.left, Queue.live, Queue.addPersistent, Queue.addAll, Queue.empty,
    List.filter_map, Function.comp_def, Task.isTaken, List.filter_filter] using
    fun job _ => hpass job

theorem counted_addAll (jobs : List Job) : (Queue.empty.addAll jobs).Counted := by
  simp [Queue.Counted, Queue.addAll, Queue.empty, List.countP_map, Function.comp_def, Task.isTaken]

end Session

namespace Config
open Session

/-- Handlers, arguments and jobs leave the queue as it is, and a drain only takes from it: it runs
the jobs that were due when it began, and ends. So the jobs of a draft run in their order, those that
resolve templates in the first pass and the calls in the second, with a sweep behind the first pass
and another one as the third. No job comes twice, and in a compilation that succeeds none is left out
and nothing but the sweep stays queued. -/
theorem runTree_schedule (config : Config σ) (mode : Mode) (tree : Tree) (host : σ) :
    (∀ job s, (runJob config mode job s).2.queue = s.queue) ∧
    (∀ sources target calls queue made queue',
      bindCalls config sources target calls queue = .ok (made, queue') → queue' = queue) ∧
    (∀ stage s, (drain config mode stage s).2.queue.live.Sublist s.queue.live ∧
      Traces Event.step? (.pass stage :: (Queue.due stage s.queue.live).map .job) s
        (drain config mode stage s)) ∧
    ∀ draft, Draft.ofTree config.interpolate tree = .ok draft →
      ∃ jobs, draft.queue.waiting = jobs ++ [.sweep] ∧ .sweep ∉ jobs ∧
        (inPass .interpolation jobs ++ inPass .directives jobs).Perm jobs ∧
        (config.runTree mode tree host).2.steps <+: agenda (plan jobs) ∧
        ∀ document, (config.runTree mode tree host).1 = .ok document →
          (config.runTree mode tree host).2.steps = agenda (plan jobs) ∧
          (config.runTree mode tree host).2.queue = ⟨[⟨.interpolation, true, some .sweep⟩], 0⟩ := by
  refine ⟨queue_runJob config mode, fun _ _ _ _ _ _ => queue_of_bindCalls, fun stage s =>
    ⟨live_drain config mode stage s, steps_drain config mode stage s⟩, fun draft hd => ?_⟩
  cases hr : tree.entries? with
  | none =>
    rw [Draft.ofTree, hr] at hd
    cases hd
  | some entries =>
    have hw := hd
    rw [Draft.ofTree_eq _ hr] at hw
    obtain ⟨v, hv, rfl⟩ := map_eq_ok_iff.1 hw
    refine ⟨(Tree.block entries).jobs config.interpolate .document, waiting_draft _,
      fun hm => Tree.causes_of_mem_jobs _ _ hm, perm_inPass _, ?_⟩
    obtain ⟨queue, hrun⟩ := runTree_eq config mode host hr hv
    have ht := steps_runPasses config mode
      (plan ((Tree.block entries).jobs config.interpolate .document)) (start host v)
    have hs : (config.runTree mode tree host).2.steps = (runPasses config mode (plan
        ((Tree.block entries).jobs config.interpolate .document)) (start host v)).2.steps := by
      rw [hrun]
      split <;> rename_i hp <;> rw [hp] <;> rfl
    rw [hs]
    refine ⟨ht.start, fun document hok => ⟨?_, ?_⟩⟩
    · refine ht.whole ?_
      rw [hrun] at hok
      split at hok
      · cases hok
      · rename_i hp
        rw [hp]
    · rw [runTree, hd] at hok ⊢
      dsimp only at hok ⊢
      split at hok
      · cases hok
      · rename_i hp
        exact (queue_drainAll ((counted_addAll _).addPersistent _ _) hp).trans
          (congrArg (fun tasks => Queue.mk tasks 0) (left_passes _))

end Config

end ConfigDoc
