import ConfigDoc.Proofs.Session.Drain

namespace ConfigDoc

variable {σ : Type}

namespace Session

structure Simulates (R : Session σ → Session σ → Prop) (run run' : Except Error Unit × Session σ) :
    Prop where
  result : run.1 = run'.1
  session : R run.2 run'.2

variable {R : Session σ → Session σ → Prop} {run run' : Except Error Unit × Session σ}

theorem Simulates.andThen (h : Simulates R run run')
    {next next' : Session σ → Except Error Unit × Session σ}
    (hn : ∀ after after', R after after' → Simulates R (next after) (next' after')) :
    Simulates R (andThen run next) (andThen run' next') := by
  obtain ⟨result, after⟩ := run
  obtain ⟨result', after'⟩ := run'
  obtain ⟨rfl, hr⟩ := h
  cases result with
  | error e => exact ⟨rfl, hr⟩
  | ok _ => exact hn after after' hr

/-- What has to be kept in step: related sessions run related jobs to the same results and to
related sessions. -/
structure InStep (config config' : Config σ) (mode mode' : Mode) (R : Session σ → Session σ → Prop)
    (Q : Job → Job → Prop) : Prop where
  root {s s' : Session σ} (h : R s s') : s.root = s'.root
  pass {s s' : Session σ} (h : R s s') (stage : Stage) :
    R (s.record (.pass stage)) (s'.record (.pass stage))
  queue {s s' : Session σ} (h : R s s') (queue queue' : Queue Job) :
    R (s.withQueue queue) (s'.withQueue queue')
  sweep : Q .sweep .sweep
  stage {job job' : Job} (h : Q job job') : job.stage = job'.stage
  runJob {job job' : Job} {s s' : Session σ} (hq : Q job job') (h : R s s') :
    Simulates R (Session.runJob config mode job s) (Session.runJob config' mode' job' s')

variable {config config' : Config σ} {mode mode' : Mode} {Q : Job → Job → Prop} {s s' : Session σ}

theorem InStep.runAll (hi : InStep config config' mode mode' R Q) {jobs jobs' : List Job}
    (hq : List.Forall₂ Q jobs jobs') (h : R s s') :
    Simulates R (runAll config mode jobs s) (runAll config' mode' jobs' s') := by
  induction hq generalizing s s' with
  | nil => exact ⟨rfl, h⟩
  | cons hj _ ih =>
    apply (hi.runJob hj h).andThen
    intro after after' ha
    exact ih ha

def SamePass (Q : Job → Job → Prop) (pass pass' : Stage × List Job) : Prop :=
  pass.1 = pass'.1 ∧ List.Forall₂ Q pass.2 pass'.2

theorem InStep.runPasses (hi : InStep config config' mode mode' R Q)
    {passes passes' : List (Stage × List Job)} (hq : List.Forall₂ (SamePass Q) passes passes')
    (h : R s s') :
    Simulates R (runPasses config mode passes s) (runPasses config' mode' passes' s') := by
  induction hq generalizing s s' with
  | nil => exact ⟨rfl, h⟩
  | @cons pass pass' _ _ hp _ ih =>
    obtain ⟨stage, jobs⟩ := pass
    obtain ⟨stage', jobs'⟩ := pass'
    obtain ⟨rfl, hj⟩ := hp
    apply (hi.runAll hj (hi.pass h stage)).andThen
    intro after after' ha
    exact ih ha

/-- Related jobs are due in the same passes. -/
theorem InStep.inPass (hi : InStep config config' mode mode' R Q) {jobs jobs' : List Job}
    (hq : List.Forall₂ Q jobs jobs') (stage : Stage) :
    List.Forall₂ Q (inPass stage jobs) (inPass stage jobs') := by
  induction hq with
  | nil => exact .nil
  | @cons job job' _ _ hj _ ih =>
    unfold Session.inPass at ih ⊢
    rw [List.filter_cons, List.filter_cons, hi.stage hj]
    split
    · exact .cons hj ih
    · exact ih

theorem InStep.plan (hi : InStep config config' mode mode' R Q) {jobs jobs' : List Job}
    (hq : List.Forall₂ Q jobs jobs') : List.Forall₂ (SamePass Q) (plan jobs) (plan jobs') := by
  have hsweep : List.Forall₂ Q [.sweep] [.sweep] := .cons hi.sweep .nil
  exact .cons ⟨rfl, List.rel_append (hi.inPass hq .interpolation) hsweep⟩
    (.cons ⟨rfl, hi.inPass hq .directives⟩ (.cons ⟨rfl, hsweep⟩ .nil))

def seen {α : Type} (view : Event → Option α) (s : Session σ) : List α := s.journal.filterMap view

structure SameView {α : Type} (view : Event → Option α) (s s' : Session σ) : Prop where
  root : s.root = s'.root
  host : s.host = s'.host
  seen : s.seen view = s'.seen view

variable {α : Type} {view : Event → Option α}

theorem seen_record (s : Session σ) (event : Event) :
    (s.record event).seen view = s.seen view ++ (view event).toList := by
  rw [seen, record, List.filterMap_append]
  cases hv : view event <;> simp [seen, hv]

theorem SameView.symm (h : SameView view s s') : SameView view s' s :=
  ⟨h.root.symm, h.host.symm, h.seen.symm⟩

theorem SameView.trans {s'' : Session σ} (h : SameView view s s') (h' : SameView view s' s'') :
    SameView view s s'' :=
  ⟨h.root.trans h'.root, h.host.trans h'.host, h.seen.trans h'.seen⟩

theorem SameView.record (h : SameView view s s') {event event' : Event}
    (he : view event = view event') : SameView view (s.record event) (s'.record event') := by
  refine ⟨h.root, h.host, ?_⟩
  rw [seen_record, seen_record, h.seen, he]

theorem SameView.applied (h : SameView view s s') (name : String) (target : Reference)
    (args : List Value) : SameView view (s.record (.applied name target s.root args))
      (s'.record (.applied name target s'.root args)) := by
  apply h.record
  rw [h.root]

theorem SameView.sources (h : SameView view s s') : s.sources = s'.sources := by
  rw [Session.sources, Session.sources, h.root]

/-- Work that runs the same way has the same result, and leaves sessions that look the same. -/
theorem SameView.perform {β : Type} (h : SameView view s s') (target : Reference)
    (action action' : Action σ β)
    (ha : ∀ root host, action.run target root host = action'.run target root host) :
    (s.perform target action).1 = (s'.perform target action').1 ∧
      SameView view (s.perform target action).2 (s'.perform target action').2 := by
  unfold Session.perform
  rw [ha, h.root, h.host]
  exact ⟨rfl, rfl, rfl, h.seen⟩

/-- What a handler does depends on the tree and the host alone. -/
theorem SameView.apply (h : SameView view s s') (mode : Mode) (target : Reference)
    (call : BoundCall σ) :
    Simulates (SameView view) (apply mode target call s) (apply mode target call s') := by
  have hb := h.applied call.name target call.args
  have hp := hb.perform target (call.handler target call.args) (call.handler target call.args)
    fun _ _ => rfl
  unfold Session.apply
  dsimp only
  revert hp
  rcases Session.perform (s.record _) target (call.handler target call.args) with
    ⟨_ | _ | later, after⟩ <;>
    rcases Session.perform (s'.record _) target (call.handler target call.args) with
      ⟨result, after'⟩ <;>
    rintro ⟨hr, ha⟩ <;> cases hr
  · exact ⟨rfl, ha⟩
  · exact ⟨rfl, ha⟩
  · have hd : SameView view (after.record (.deferred call.name))
        (after'.record (.deferred call.name)) := ha.record rfl
    cases mode with
    | blocking => exact ⟨rfl, hd⟩
    | awaiting =>
      obtain ⟨hresult, hs⟩ := hd.perform target later later fun _ _ => rfl
      exact ⟨hresult, hs⟩

end Session

namespace Config
open Session

variable {config config' : Config σ} {mode mode' : Mode} {R : Session σ → Session σ → Prop}
  {Q : Job → Job → Prop}

/-- Compilations that start from the same document with related jobs give the same result, and end
in related sessions. -/
theorem runTree_inStep (hi : InStep config config' mode mode' R Q) {tree tree' : Tree} {host : σ}
    {entries entries' : List (Entry Tree)} {v : Value}
    (h : tree.entries? = some entries) (h' : tree'.entries? = some entries')
    (hv : (Tree.block entries).initial config.interpolate .document = .ok v)
    (hv' : (Tree.block entries').initial config'.interpolate .document = .ok v)
    (hq : List.Forall₂ Q ((Tree.block entries).jobs config.interpolate .document)
      ((Tree.block entries').jobs config'.interpolate .document))
    (hr : R (start host v) (start host v)) :
    (config.runTree mode tree host).1 = (config'.runTree mode' tree' host).1 ∧
      R (config.runTree mode tree host).2 (config'.runTree mode' tree' host).2 := by
  obtain ⟨queue, hrun⟩ := runTree_eq config mode host h hv
  obtain ⟨queue', hrun'⟩ := runTree_eq config' mode' host h' hv'
  have hs := hi.runPasses (hi.plan hq) hr
  rw [hrun, hrun']
  revert hs
  rcases runPasses config mode _ (start host v) with ⟨_ | _, after⟩ <;>
    rcases runPasses config' mode' _ (start host v) with ⟨_ | _, after'⟩ <;>
    rintro ⟨hr, ha⟩ <;> cases hr
  · exact ⟨rfl, hi.queue ha queue queue'⟩
  · have hd : after.document = after'.document := by
      rw [Session.document, Session.document, hi.root ha]
    exact ⟨congrArg Except.ok hd, hi.queue ha queue queue'⟩

end Config

end ConfigDoc
