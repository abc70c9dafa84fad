import ConfigDoc.Proofs.Draft.Dedup
import ConfigDoc.Proofs.Session.Drain

/-! What jobs do depends on the tree of values and on the host, and on nothing else. -/

namespace ConfigDoc

/-- An error without what depends on where it is met first: the circle, the sort of node refused. -/
def Error.coarse : Error → Error
  | .circularTemplate _ => .circularTemplate []
  | .invalidNode _ => .invalidNode .directive
  | e => e

variable {σ : Type}

namespace Session

structure Agrees (s s' : Session σ) : Prop where
  root : s.root = s'.root
  host : s.host = s'.host

/-- Runs that end in the same way, but for details of an error. -/
structure EndsLike {α : Type} (run run' : Except Error α × Session σ) : Prop where
  result : run.1.mapError Error.coarse = run'.1.mapError Error.coarse
  host : run.2.host = run'.2.host
  root {a : α} (h : run.1 = .ok a) : run.2.root = run'.2.root

variable {config : Config σ} {mode : Mode} {s s' : Session σ}

theorem Agrees.record (h : s.Agrees s') (event event' : Event) :
    (s.record event).Agrees (s'.record event') := ⟨h.root, h.host⟩

theorem Agrees.sources (h : s.Agrees s') : s.sources = s'.sources := by
  rw [Session.sources, Session.sources, h.root]

theorem Agrees.document (h : s.Agrees s') : s.document = s'.document := by
  rw [Session.document, Session.document, h.root]

theorem Agrees.endsLike (h : s.Agrees s') {α : Type} (result : Except Error α) :
    EndsLike (result, s) (result, s') := ⟨rfl, h.host, fun _ => h.root⟩

theorem endsLike_error {α : Type} {e e' : Error} (he : e.coarse = e'.coarse)
    (h : s.host = s'.host) : EndsLike ((.error e : Except Error α), s) (.error e', s') :=
  ⟨congrArg Except.error he, h, nofun⟩

/-- Runs that end alike either both fail or go on from sessions that agree. -/
theorem EndsLike.cases {α : Type} {run run' : Except Error α × Session σ} (h : EndsLike run run') :
    (∃ e e' after after', run = (.error e, after) ∧ run' = (.error e', after') ∧
      e.coarse = e'.coarse ∧ after.host = after'.host) ∨
    ∃ a after after', run = (.ok a, after) ∧ run' = (.ok a, after') ∧ after.Agrees after' := by
  obtain ⟨r, after⟩ := run
  obtain ⟨r', after'⟩ := run'
  obtain ⟨hr, hh, hroot⟩ := h
  cases r with
  | error e =>
    cases r' with
    | error e' => exact .inl ⟨e, e', after, after', rfl, rfl, Except.error.inj hr, hh⟩
    | ok a => cases hr
  | ok a =>
    cases r' with
    | error e' => cases hr
    | ok a' =>
      cases hr
      exact .inr ⟨a, after, after', rfl, rfl, hroot rfl, hh⟩

theorem EndsLike.andThen {run run' : Except Error Unit × Session σ} (h : EndsLike run run')
    {next next' : Session σ → Except Error Unit × Session σ}
    (hn : ∀ after after', after.Agrees after' → EndsLike (next after) (next' after')) :
    EndsLike (andThen run next) (andThen run' next') := by
  rcases h.cases with ⟨e, e', after, after', rfl, rfl, he, hh⟩ | ⟨_, after, after', rfl, rfl, ha⟩
  · exact endsLike_error he hh
  · exact hn after after' ha

theorem perform_agrees (h : s.Agrees s') {α : Type} (target : Reference) (action : Action σ α) :
    EndsLike (s.perform target action) (s'.perform target action) := by
  unfold perform
  rw [h.root, h.host]
  exact ⟨rfl, rfl, fun _ => rfl⟩

theorem apply_agrees (mode : Mode) (target : Reference) (call : BoundCall σ) (h : s.Agrees s') :
    EndsLike (apply mode target call s) (apply mode target call s') := by
  have hp := perform_agrees (h.record (.applied call.name target s.root call.args)
    (.applied call.name target s'.root call.args)) target (call.handler target call.args)
  unfold apply
  dsimp only
  rcases hp.cases with ⟨e, e', after, after', h₁, h₂, he, hh⟩ | ⟨outcome, after, after', h₁, h₂, ha⟩
  · rw [h₁, h₂]
    exact endsLike_error he hh
  · rw [h₁, h₂]
    cases outcome with
    | ready => exact ha.endsLike _
    | pending later =>
      have hl := ha.record (.deferred call.name) (.deferred call.name)
      cases mode with
      | blocking => exact hl.endsLike _
      | awaiting => exact perform_agrees hl target later

theorem applyAll_agrees (mode : Mode) (target : Reference) (calls : List (BoundCall σ))
    (h : s.Agrees s') : EndsLike (applyAll mode target calls s) (applyAll mode target calls s') := by
  induction calls generalizing s s' with
  | nil => exact h.endsLike _
  | cons call rest ih => exact (apply_agrees mode target call h).andThen fun _ _ ha => ih ha

theorem interpolate_agrees (config : Config σ) (target : Reference) (template : Template)
    (h : s.Agrees s') :
    EndsLike (interpolate config target template s) (interpolate config target template s') := by
  unfold interpolate
  rw [h.sources, h.root]
  dsimp only
  split
  · exact ⟨rfl, h.host, fun _ => rfl⟩
  · exact h.endsLike _

theorem sweep_agrees (config : Config σ) (h : s.Agrees s') :
    EndsLike (sweep config s) (sweep config s') := by
  unfold sweep
  rw [h.sources, h.root]
  dsimp only
  split
  · split
    · exact ⟨rfl, h.host, fun _ => rfl⟩
    · exact h.endsLike _
  · exact h.endsLike _

def LosslessArgs (interpolate : Bool) : Job → Prop
  | .directives _ calls => ∀ call ∈ calls, Tree.LosslessItems interpolate .argument call.args
  | _ => True

theorem mapError_bind {α β : Type} (x : Except Error α) (f : α → Except Error β) :
    (x >>= f).mapError Error.coarse =
      x.mapError Error.coarse >>= fun a => (f a).mapError Error.coarse := by
  cases x <;> rfl

theorem initialItems_dedup {interpolate : Bool} {items : List Tree}
    (h : Tree.LosslessItems interpolate .argument items) :
    (Tree.initialItems interpolate .argument (Tree.dedupItems items)).mapError Error.coarse =
      (Tree.initialItems interpolate .argument items).mapError Error.coarse := by
  have hi := Tree.initialItems_dedup_iff items h
  cases hv : Tree.initialItems interpolate .argument items with
  | ok vs => rw [(hi vs).2 hv]
  | error e =>
    cases hd : Tree.initialItems interpolate .argument (Tree.dedupItems items) with
    | ok vs => cases hv.symm.trans ((hi vs).1 hd)
    | error e' =>
      obtain ⟨kind, rfl, -⟩ := Tree.error_of_initialItems _ hv
      obtain ⟨kind', rfl, -⟩ := Tree.error_of_initialItems _ hd
      rfl

/-- The calls are bound to the same arguments, or refused with them. -/
theorem bound_dedup (config : Config σ) (sources : List Value) {calls : List (Call Tree)}
    (h : ∀ call ∈ calls, Tree.LosslessItems config.interpolate .argument call.args) :
    (bound config sources (Tree.dedupCalls calls)).mapError Error.coarse =
      (bound config sources calls).mapError Error.coarse := by
  induction calls with
  | nil => rfl
  | cons call rest ih =>
    obtain ⟨hc, hr⟩ := List.forall_mem_cons.1 h
    rw [Tree.dedupCalls, bound, bound]
    cases config.handler? call.name with
    | none => rfl
    | some handler =>
      dsimp only
      rw [mapError_bind, mapError_bind, initialItems_dedup hc]
      apply congrArg
      funext vs
      rw [mapError_bind, mapError_bind]
      apply congrArg
      funext args
      rw [mapError_bind, mapError_bind, ih hr]

theorem runJob_dedup (mode : Mode) {job : Job} (hl : LosslessArgs config.interpolate job)
    (h : s.Agrees s') : EndsLike (runJob config mode job.dedup s) (runJob config mode job s') := by
  have hr := h.record (.job job.dedup) (.job job)
  cases job with
  | interpolate target template => exact interpolate_agrees config target template hr
  | sweep => exact sweep_agrees config hr
  | directives target calls =>
    have hb := bound_dedup config s.sources hl
    show EndsLike (runJob config mode (.directives target (Tree.dedupCalls calls)) s) _
    rw [runJob_directives, runJob_directives, ← h.sources]
    revert hb
    cases bound config s.sources (Tree.dedupCalls calls) <;>
      cases bound config s.sources calls <;> intro hb
    · exact endsLike_error (Except.error.inj hb) hr.host
    · cases hb
    · cases hb
    · cases hb
      exact applyAll_agrees mode target _ hr

/-- Sessions that agree keep agreeing, up to the first job that fails. -/
theorem runAll_dedup (mode : Mode) (jobs : List Job)
    (hl : ∀ job ∈ jobs, LosslessArgs config.interpolate job) (h : s.Agrees s') :
    EndsLike (runAll config mode (jobs.map Job.dedup) s) (runAll config mode jobs s') := by
  induction jobs generalizing s s' with
  | nil => exact h.endsLike _
  | cons job rest ih =>
    obtain ⟨hj, hr⟩ := List.forall_mem_cons.1 hl
    exact (runJob_dedup mode hj h).andThen fun _ _ ha => ih hr ha

end Session

end ConfigDoc
