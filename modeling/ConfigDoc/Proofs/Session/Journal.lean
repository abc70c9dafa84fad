import ConfigDoc.Proofs.Session.Drain

/-! What a run puts on record: nothing is ever taken back, and handlers are applied in the order of
the jobs. -/

namespace ConfigDoc

variable {σ : Type}

def Event.application? : Event → Option (String × Reference)
  | .applied name target _ _ => some (name, target)
  | _ => none

def Job.applications : Job → List (String × Reference)
  | .directives target calls => calls.map fun call => (call.name, target)
  | _ => []

namespace Session

def applications (s : Session σ) : List (String × Reference) :=
  s.journal.filterMap Event.application?

variable {config : Config σ} {s : Session σ}

/-- Either the handler has done its work, whatever the mode, or the mode decides what becomes of the
work that it has put off. -/
theorem apply_cases (target : Reference) (call : BoundCall σ) (s : Session σ) :
    (∃ result after, (∀ mode, apply mode target call s = (result, after)) ∧
      after.journal = s.journal ++ [.applied call.name target s.root call.args]) ∨
    ∃ later after, apply .blocking target call s = (.error (.asyncMisuse call.name), after) ∧
      apply .awaiting target call s = after.perform target later ∧
      after.journal = s.journal ++ [.applied call.name target s.root call.args,
        .deferred call.name] := by
  have hj : ((s.record (.applied call.name target s.root call.args)).perform target
      (call.handler target call.args)).2.journal =
        s.journal ++ [.applied call.name target s.root call.args] := rfl
  unfold apply
  dsimp only
  revert hj
  rcases (s.record (.applied call.name target s.root call.args)).perform target
    (call.handler target call.args) with ⟨e | _ | later, after⟩ <;> intro hj
  · exact .inl ⟨_, after, fun _ => rfl, hj⟩
  · exact .inl ⟨_, after, fun _ => rfl, hj⟩
  · refine .inr ⟨later, _, rfl, rfl, ?_⟩
    rw [record, hj, List.append_assoc]
    rfl

theorem journal_apply (mode : Mode) (target : Reference) (call : BoundCall σ) (s : Session σ) :
    ∃ rest, (apply mode target call s).2.journal =
      s.journal ++ .applied call.name target s.root call.args :: rest ∧
        ∀ event ∈ rest, event = .deferred call.name := by
  rcases apply_cases target call s with ⟨result, after, h, hj⟩ | ⟨later, after, hb, ha, hj⟩
  · exact ⟨[], by rw [h, hj], nofun⟩
  · refine ⟨[.deferred call.name], ?_, fun event hm => List.mem_singleton.1 hm⟩
    cases mode with
    | blocking => rw [hb, hj]
    | awaiting =>
      rw [ha, ← hj]
      rfl

theorem journal_interpolate (config : Config σ) (target : Reference) (template : Template)
    (s : Session σ) : (interpolate config target template s).2.journal = s.journal := by
  unfold interpolate
  dsimp only
  split <;> rfl

theorem journal_sweep (config : Config σ) (s : Session σ) :
    (sweep config s).2.journal = s.journal := by
  unfold sweep
  dsimp only
  split
  · split <;> rfl
  · rfl

def Extends (s : Session σ) (run : Except Error Unit × Session σ) : Prop :=
  s.journal <+: run.2.journal

theorem Extends.andThen {run : Except Error Unit × Session σ} (h : Extends s run)
    {next : Session σ → Except Error Unit × Session σ} (hn : ∀ after, Extends after (next after)) :
    Extends s (andThen run next) :=
  andThen_keeps (P := fun after => s.journal <+: after.journal) h fun after ha =>
    ha.trans (hn after)

theorem extends_record (s : Session σ) (event : Event) : s.journal <+: (s.record event).journal :=
  List.prefix_append _ _

theorem extends_apply (mode : Mode) (target : Reference) (call : BoundCall σ) (s : Session σ) :
    Extends s (apply mode target call s) := by
  obtain ⟨rest, hj, -⟩ := journal_apply mode target call s
  exact ⟨_, hj.symm⟩

theorem extends_applyAll (mode : Mode) (target : Reference) (calls : List (BoundCall σ))
    (s : Session σ) : Extends s (applyAll mode target calls s) := by
  induction calls generalizing s with
  | nil => exact List.prefix_rfl
  | cons call rest ih => exact (extends_apply mode target call s).andThen ih

theorem extends_runJob (config : Config σ) (mode : Mode) (job : Job) (s : Session σ) :
    Extends s (runJob config mode job s) := by
  have hr := extends_record s (.job job)
  cases job with
  | interpolate target template =>
    exact hr.trans (journal_interpolate config target template _ ▸ List.prefix_rfl)
  | sweep => exact hr.trans (journal_sweep config _ ▸ List.prefix_rfl)
  | directives target calls =>
    rw [runJob_directives]
    split
    · exact hr
    · exact hr.trans (extends_applyAll mode target _ _)

theorem extends_runAll (config : Config σ) (mode : Mode) (jobs : List Job) (s : Session σ) :
    Extends s (runAll config mode jobs s) := by
  induction jobs generalizing s with
  | nil => exact List.prefix_rfl
  | cons job rest ih => exact (extends_runJob config mode job s).andThen ih

theorem extends_runPasses (config : Config σ) (mode : Mode) (passes : List (Stage × List Job))
    (s : Session σ) : Extends s (runPasses config mode passes s) := by
  induction passes generalizing s with
  | nil => exact List.prefix_rfl
  | cons pass rest ih =>
    have hr := extends_record s (.pass pass.1)
    exact Extends.andThen (hr.trans (extends_runAll config mode pass.2 _)) ih

theorem extends_drainFrom (config : Config σ) (mode : Mode) (stage : Stage) (cursor : Nat)
    (s : Session σ) : Extends s (drainFrom config mode stage cursor s) := by
  obtain ⟨queue, h, -⟩ := drainFrom_eq config mode stage cursor s
  rw [Extends, h]
  exact extends_runAll config mode _ s

theorem extends_drain (config : Config σ) (mode : Mode) (stage : Stage) (s : Session σ) :
    Extends s (drain config mode stage s) :=
  (extends_record s (.pass stage)).trans (extends_drainFrom config mode stage 0 _)

theorem extends_drainAll (config : Config σ) (mode : Mode) (stages : List Stage) (s : Session σ) :
    Extends s (drainAll config mode stages s) := by
  induction stages generalizing s with
  | nil => exact List.prefix_rfl
  | cons stage rest ih => exact (extends_drain config mode stage s).andThen ih

/-- A run puts events on record that look as expected, from the first one on; if it succeeds, all of
them. Events that the view does not see do not count. -/
structure Traces {α : Type} (view : Event → Option α) (expected : List α) (s : Session σ)
    (run : Except Error Unit × Session σ) : Prop where
  start : run.2.journal.filterMap view <+: s.journal.filterMap view ++ expected
  whole (h : run.1 = .ok ()) :
    run.2.journal.filterMap view = s.journal.filterMap view ++ expected

section
variable {α : Type} {view : Event → Option α} {expected others : List α}

theorem Traces.andThen {run : Except Error Unit × Session σ} (h : Traces view expected s run)
    {next : Session σ → Except Error Unit × Session σ}
    (hn : ∀ after, Traces view others after (next after)) :
    Traces view (expected ++ others) s (andThen run next) := by
  obtain ⟨_ | _, after⟩ := run
  · exact ⟨h.start.trans (by rw [← List.append_assoc]; exact List.prefix_append _ _), nofun⟩
  · have hw := h.whole rfl
    obtain ⟨hs, hall⟩ := hn after
    rw [hw, List.append_assoc] at hs hall
    exact ⟨hs, hall⟩

theorem traces_of_eq {run : Except Error Unit × Session σ}
    (h : run.2.journal.filterMap view = s.journal.filterMap view ++ expected) :
    Traces view expected s run :=
  ⟨h ▸ List.prefix_rfl, fun _ => h⟩

/-- A run that starts with an event on record. -/
theorem Traces.record {run : Except Error Unit × Session σ} {event : Event}
    (h : Traces view expected (s.record event) run) :
    Traces view ((view event).toList ++ expected) s run := by
  have hv : (s.record event).journal.filterMap view ++ expected =
      s.journal.filterMap view ++ ((view event).toList ++ expected) := by
    rw [Session.record, List.filterMap_append, List.append_assoc]
    cases hv : view event <;> simp [hv]
  exact ⟨hv ▸ h.start, fun hok => hv ▸ h.whole hok⟩

/-- A view that does not see work being put off sees of an application only that it is made. -/
theorem traces_apply (mode : Mode) (target : Reference) (call : BoundCall σ) (s : Session σ)
    (hv : view (.deferred call.name) = none) :
    Traces view (view (.applied call.name target s.root call.args)).toList s
      (apply mode target call s) := by
  obtain ⟨rest, hj, hr⟩ := journal_apply mode target call s
  have hrest : rest.filterMap view = [] := by
    rw [List.filterMap_eq_nil_iff]
    intro event hm
    rw [hr event hm, hv]
  apply traces_of_eq
  rw [hj, List.filterMap_append, List.filterMap_cons, hrest]
  cases view (.applied call.name target s.root call.args) <;> rfl

/-- Calls that are applied one after the other leave their traces one after the other. -/
theorem traces_applyAll {mode : Mode} {target : Reference} {expected : BoundCall σ → α}
    (h : ∀ call s, Traces view [expected call] s (apply mode target call s))
    (calls : List (BoundCall σ)) (s : Session σ) :
    Traces view (calls.map expected) s (applyAll mode target calls s) := by
  induction calls generalizing s with
  | nil => exact traces_of_eq (List.append_nil _).symm
  | cons call rest ih => exact (h call s).andThen ih

/-- Jobs that are run one after the other leave their traces one after the other. -/
theorem traces_runAll {mode : Mode} {expected : Job → List α}
    (h : ∀ job s, Traces view (expected job) s (runJob config mode job s)) (jobs : List Job)
    (s : Session σ) : Traces view (jobs.flatMap expected) s (runAll config mode jobs s) := by
  induction jobs generalizing s with
  | nil => exact traces_of_eq (List.append_nil _).symm
  | cons job rest ih => exact (h job s).andThen ih

theorem traces_runPasses {mode : Mode} {expected : Job → List α}
    (h : ∀ job s, Traces view (expected job) s (runJob config mode job s))
    (passes : List (Stage × List Job)) (s : Session σ) :
    Traces view (passes.flatMap fun pass => (view (.pass pass.1)).toList ++ pass.2.flatMap expected)
      s (runPasses config mode passes s) := by
  induction passes generalizing s with
  | nil => exact traces_of_eq (List.append_nil _).symm
  | cons pass rest ih => exact (traces_runAll h pass.2 (s.record (.pass pass.1))).record.andThen ih

end

abbrev Follows := @Traces σ (String × Reference) Event.application?

/-- A run without applications. -/
theorem follows_nil {run : Except Error Unit × Session σ}
    (h : run.2.applications = s.applications) : Follows [] s run :=
  traces_of_eq (h.trans (List.append_nil _).symm)

theorem follows_apply (mode : Mode) (target : Reference) (call : BoundCall σ) (s : Session σ) :
    Follows [(call.name, target)] s (apply mode target call s) :=
  traces_apply mode target call s rfl

theorem follows_applyAll (mode : Mode) (target : Reference) (calls : List (BoundCall σ))
    (s : Session σ) :
    Follows (calls.map fun call => (call.name, target)) s (applyAll mode target calls s) :=
  traces_applyAll (follows_apply mode target) calls s

theorem names_of_bound {sources : List Value} {calls : List (Call Tree)}
    {made : List (BoundCall σ)} (h : bound config sources calls = .ok made) :
    made.map BoundCall.name = calls.map Call.name := by
  induction calls generalizing made with
  | nil =>
    cases h
    rfl
  | cons call rest ih =>
    rw [bound] at h
    split at h
    · cases h
    · obtain ⟨vs, -, h⟩ := bind_eq_ok_iff.1 h
      obtain ⟨args, -, h⟩ := bind_eq_ok_iff.1 h
      obtain ⟨others, hr, h⟩ := bind_eq_ok_iff.1 h
      cases h
      rw [List.map_cons, List.map_cons, ih hr]

theorem follows_runJob (config : Config σ) (mode : Mode) (job : Job) (s : Session σ) :
    Follows job.applications s (runJob config mode job s) := by
  suffices h : Follows job.applications (s.record (.job job)) (runJob config mode job s) from h.record
  cases job with
  | interpolate target template =>
    exact follows_nil
      (congrArg (List.filterMap Event.application?) (journal_interpolate config target template _))
  | sweep => exact follows_nil (congrArg (List.filterMap Event.application?) (journal_sweep config _))
  | directives target calls =>
    rw [runJob_directives]
    cases hb : bound config s.sources calls with
    | error e => exact ⟨List.prefix_append _ _, nofun⟩
    | ok made =>
      have hm : made.map (fun call => (call.name, target)) =
          calls.map fun call => (call.name, target) := by
        have hn := congrArg (List.map fun name => (name, target)) (names_of_bound hb)
        rwa [List.map_map, List.map_map] at hn
      have hf := follows_applyAll mode target made (s.record (.job (.directives target calls)))
      rwa [hm] at hf

theorem follows_runAll (config : Config σ) (mode : Mode) (jobs : List Job) (s : Session σ) :
    Follows (jobs.flatMap Job.applications) s (runAll config mode jobs s) :=
  traces_runAll (follows_runJob config mode) jobs s

theorem follows_runPasses (config : Config σ) (mode : Mode) (passes : List (Stage × List Job))
    (s : Session σ) :
    Follows (passes.flatMap fun pass => pass.2.flatMap Job.applications) s
      (runPasses config mode passes s) :=
  traces_runPasses (follows_runJob config mode) passes s

theorem applications_interpolation (jobs : List Job) :
    (inPass .interpolation jobs).flatMap Job.applications = [] := by
  refine List.flatMap_eq_nil_iff.2 fun job hm => ?_
  have hs := (List.mem_filter.1 hm).2
  cases job with
  | directives target calls => cases hs
  | _ => rfl

theorem applications_directives (jobs : List Job) :
    (inPass .directives jobs).flatMap Job.applications = jobs.flatMap Job.applications := by
  induction jobs with
  | nil => rfl
  | cons job rest ih =>
    rw [List.flatMap_cons, ← ih]
    cases job <;> rfl

/-- The passes do not change the order of the applications: all of them are in one pass. -/
theorem applications_plan (jobs : List Job) :
    ((plan jobs).flatMap fun pass => pass.2.flatMap Job.applications) =
      jobs.flatMap Job.applications := by
  simp [plan, applications_interpolation, applications_directives, Job.applications]

end Session

end ConfigDoc
