import ConfigDoc.Proofs.Session.Journal

/-! Runs that wait for work put off, and runs that do not: the same up to the first such work. -/

namespace ConfigDoc

variable {σ : Type}

namespace Session

def Undeferred (journal : List Event) : Prop := ∀ name, .deferred name ∉ journal

inductive Lockstep {α : Type} (waiting blocking : Except Error α × Session σ) : Prop where
  | together (same : blocking = waiting) (undeferred : Undeferred waiting.2.journal)
  /-- The runs are the same up to the first application that puts work off. There the one that does
  not wait has failed, while the other one may have gone on. -/
  | parted (before : List Event) (name : String) (target : Reference) (root : Value)
      (args : List Value) (undeferred : Undeferred before)
      (waited : before ++ [.applied name target root args, .deferred name] <+: waiting.2.journal)
      (stopped : blocking.2.journal = before ++ [.applied name target root args, .deferred name])
      (refused : blocking.1 = .error (.asyncMisuse name))

variable {config : Config σ} {s : Session σ}

theorem undeferred_nil : Undeferred [] := fun _ => List.not_mem_nil

theorem Undeferred.append {journal rest : List Event} (h : Undeferred journal)
    (hr : Undeferred rest) : Undeferred (journal ++ rest) := fun name hm =>
  (List.mem_append.1 hm).elim (h name) (hr name)

theorem Undeferred.record (h : Undeferred s.journal) (event : Event)
    (he : ∀ name, event ≠ .deferred name) : Undeferred (s.record event).journal :=
  h.append fun name hm => he name (List.mem_singleton.1 hm).symm

/-- Runs in lockstep may be continued by runs in lockstep. -/
theorem Lockstep.andThen {waiting blocking : Except Error Unit × Session σ}
    (h : Lockstep waiting blocking) {next next' : Session σ → Except Error Unit × Session σ}
    (hn : ∀ after, waiting = (.ok (), after) → Undeferred after.journal →
      Lockstep (next after) (next' after))
    (he : ∀ after, Extends after (next after)) :
    Lockstep (andThen waiting next) (andThen blocking next') := by
  cases h with
  | together same undeferred =>
    rw [same]
    rcases waiting with ⟨_ | _, after⟩
    · exact .together rfl undeferred
    · exact hn after rfl undeferred
  | parted before name target root args undeferred waited stopped refused =>
    have hgoes : waiting.2.journal <+: (Session.andThen waiting next).2.journal :=
      Extends.andThen (s := waiting.2) List.prefix_rfl he
    obtain ⟨result, after⟩ := blocking
    cases refused
    exact .parted before name target root args undeferred (waited.trans hgoes) stopped rfl

/-- An application is where the runs part, if it puts work off. -/
theorem lockstep_apply (target : Reference) (call : BoundCall σ) (hu : Undeferred s.journal) :
    Lockstep (apply .awaiting target call s) (apply .blocking target call s) := by
  rcases apply_cases target call s with ⟨result, after, h, hj⟩ | ⟨later, after, hb, ha, hj⟩
  · rw [h, h]
    refine .together rfl ?_
    rw [hj]
    exact hu.append fun name hm => nomatch List.mem_singleton.1 hm
  · rw [hb, ha]
    exact .parted s.journal call.name target s.root call.args hu (hj ▸ List.prefix_rfl) hj rfl

theorem lockstep_applyAll (target : Reference) (calls : List (BoundCall σ))
    (hu : Undeferred s.journal) :
    Lockstep (applyAll .awaiting target calls s) (applyAll .blocking target calls s) := by
  induction calls generalizing s with
  | nil => exact .together rfl hu
  | cons call rest ih =>
    exact (lockstep_apply target call hu).andThen (fun _ _ hu => ih hu)
      (extends_applyAll .awaiting target rest)

theorem lockstep_runJob (config : Config σ) (job : Job) (hu : Undeferred s.journal) :
    Lockstep (runJob config .awaiting job s) (runJob config .blocking job s) := by
  have hr := hu.record (.job job) nofun
  cases job with
  | interpolate target template =>
    refine .together rfl ?_
    rw [runJob, journal_interpolate]
    exact hr
  | sweep =>
    refine .together rfl ?_
    rw [runJob, journal_sweep]
    exact hr
  | directives target calls =>
    rw [runJob_directives, runJob_directives]
    split
    · exact .together rfl hr
    · exact lockstep_applyAll target _ hr

/-- Both runs come to the same jobs, for no job changes the queue. -/
theorem lockstep_drainFrom (config : Config σ) (stage : Stage) (cursor : Nat)
    (hu : Undeferred s.journal) :
    Lockstep (drainFrom config .awaiting stage cursor s)
      (drainFrom config .blocking stage cursor s) := by
  induction h : s.queue.tasks.length - cursor using Nat.strongRecOn generalizing cursor s with
  | ind n ih =>
    subst h
    rcases hn : s.queue.next stage cursor with ⟨_ | job, queue, cursor'⟩
    · rw [drainFrom_of_next_none hn, drainFrom_of_next_none hn]
      exact .together rfl hu
    · rw [drainFrom_of_next_some hn, drainFrom_of_next_some hn]
      have hlt := Queue.next_eq_some hn
      refine (lockstep_runJob config (s := s.withQueue queue) job hu).andThen
        (fun after ha hu => ih _ ?_ cursor' hu rfl) (extends_drainFrom config .awaiting stage cursor')
      have hq := queue_runJob config .awaiting job (s.withQueue queue)
      rw [ha] at hq
      rw [hq]
      show queue.tasks.length - cursor' < _
      omega

theorem lockstep_drain (config : Config σ) (stage : Stage) (hu : Undeferred s.journal) :
    Lockstep (drain config .awaiting stage s) (drain config .blocking stage s) :=
  lockstep_drainFrom config stage 0 (hu.record (.pass stage) nofun)

theorem lockstep_drainAll (config : Config σ) (stages : List Stage) (hu : Undeferred s.journal) :
    Lockstep (drainAll config .awaiting stages s) (drainAll config .blocking stages s) := by
  induction stages generalizing s with
  | nil => exact .together rfl hu
  | cons stage rest ih =>
    exact (lockstep_drain config stage hu).andThen (fun _ _ hu => ih hu)
      (extends_drainAll config .awaiting rest)

theorem bindCalls_asynchronous (config : Config σ) (asynchronous : Bool) (sources : List Value)
    (target : Reference) (calls : List (Call Tree)) (queue : Queue Job) :
    bindCalls { config with asynchronous := asynchronous } sources target calls queue =
      bindCalls config sources target calls queue := by
  rw [bindCalls_eq, bindCalls_eq]
  congr 1
  induction calls with
  | nil => rfl
  | cons call rest ih =>
    rw [bound, bound, ih]
    rfl

theorem runJob_asynchronous (config : Config σ) (asynchronous : Bool) (mode : Mode) (job : Job)
    (s : Session σ) :
    runJob { config with asynchronous := asynchronous } mode job s = runJob config mode job s := by
  cases job with
  | directives target calls =>
    rw [runJob, runJob, bindCalls_asynchronous]
  | _ => rfl

theorem drainFrom_asynchronous (config : Config σ) (asynchronous : Bool) (mode : Mode)
    (stage : Stage) (cursor : Nat) (s : Session σ) :
    drainFrom { config with asynchronous := asynchronous } mode stage cursor s =
      drainFrom config mode stage cursor s := by
  induction h : s.queue.tasks.length - cursor using Nat.strongRecOn generalizing cursor s with
  | ind n ih =>
    subst h
    rcases hn : s.queue.next stage cursor with ⟨_ | job, queue, cursor'⟩
    · rw [drainFrom_of_next_none hn, drainFrom_of_next_none hn]
    · have hlt := Queue.next_eq_some hn
      have hq := queue_runJob config mode job (s.withQueue queue)
      rw [drainFrom_of_next_some hn, drainFrom_of_next_some hn, runJob_asynchronous]
      rcases hr : runJob config mode job (s.withQueue queue) with ⟨_ | _, after⟩
      · rfl
      · refine ih _ ?_ cursor' after rfl
        rw [hr] at hq
        rw [hq]
        show queue.tasks.length - cursor' < _
        omega

theorem drainAll_asynchronous (config : Config σ) (asynchronous : Bool) (mode : Mode)
    (stages : List Stage) (s : Session σ) :
    drainAll { config with asynchronous := asynchronous } mode stages s =
      drainAll config mode stages s := by
  induction stages generalizing s with
  | nil => rfl
  | cons stage rest ih =>
    rw [drainAll, drainAll, drain, drain, drainFrom_asynchronous]
    rcases drainFrom config mode stage 0 (s.record (.pass stage)) with ⟨_ | _, after⟩
    · rfl
    · exact ih after

end Session

namespace Config
open Session

theorem runTree_asynchronous (config : Config σ) (asynchronous : Bool) (mode : Mode) (tree : Tree)
    (host : σ) : runTree { config with asynchronous := asynchronous } mode tree host =
      config.runTree mode tree host := by
  rw [runTree, runTree]
  cases Draft.ofTree config.interpolate tree with
  | error e => rfl
  | ok draft =>
    dsimp only
    rw [drainAll_asynchronous]

theorem prepare_asynchronous (registered : List (Plugin σ)) (options : Options σ)
    (asynchronous : Bool) :
    prepare registered { options with asynchronous := asynchronous } =
      (fun config : Config σ => { config with asynchronous := asynchronous }) <$>
        prepare registered options := by
  simp only [prepare, map_bind, map_pure]

/-- A compilation that waits and one that does not apply the same handlers to the same nodes with the
same arguments, until for the first time a handler puts work off. If that happens, the one that does
not wait fails for the name of this handler; otherwise both are the same to the end. Whether the
options ask for asynchrony makes no difference. -/
theorem runTree_lockstep (config : Config σ) (tree : Tree) (host : σ) :
    Lockstep (config.runTree .awaiting tree host) (config.runTree .blocking tree host) ∧
      (∀ mode asynchronous, runTree { config with asynchronous := asynchronous } mode tree host =
        config.runTree mode tree host) ∧
      ∀ registered options mode asynchronous,
        ConfigDoc.compileTree registered { options with asynchronous := asynchronous } mode tree host =
          ConfigDoc.compileTree registered options mode tree host := by
  refine ⟨?_, fun mode asynchronous => runTree_asynchronous config asynchronous mode tree host,
    fun registered options mode asynchronous => ?_⟩
  · rw [runTree, runTree]
    cases Draft.ofTree config.interpolate tree with
    | error e => exact .together rfl undeferred_nil
    | ok draft =>
      dsimp only
      cases lockstep_drainAll config passes (s := ofDraft host draft) undeferred_nil with
      | together same undeferred =>
        rw [same]
        revert undeferred
        rcases drainAll config .awaiting passes (ofDraft host draft) with ⟨_ | _, s⟩ <;>
          exact fun undeferred => .together rfl undeferred
      | parted before name target root args undeferred waited stopped refused =>
        revert waited stopped refused
        rcases drainAll config .blocking passes (ofDraft host draft) with ⟨result, s⟩
        rcases drainAll config .awaiting passes (ofDraft host draft) with ⟨_ | _, s'⟩ <;>
        · rintro waited stopped ⟨⟩
          exact .parted before name target root args undeferred waited stopped rfl
  · rw [ConfigDoc.compileTree, ConfigDoc.compileTree, prepare_asynchronous]
    cases prepare registered options with
    | error e => rfl
    | ok config =>
      show compileTree { config with asynchronous := asynchronous } mode tree host =
        compileTree config mode tree host
      rw [compileTree, compileTree, runTree_asynchronous]

end Config

end ConfigDoc
