import ConfigDoc.Proofs.Compile.Arguments
import ConfigDoc.Proofs.Session.Failure

/-! Runs without interpolation: where no handler writes a template, there is none. -/

namespace ConfigDoc

variable {σ : Type}

structure Untemplated (inOrder : σ → Prop) (root : Value) (host : σ) : Prop where
  root : root.hasTemplate = false
  host : inOrder host

def Action.KeepsUntemplated {α : Type} (inOrder : σ → Prop) (node : Reference) (action : Action σ α)
    (root : Value) (host : σ) : Prop :=
  Untemplated inOrder root host → Untemplated inOrder (action.run node root host).2.1
    (action.run node root host).2.2

/-- Whether a handler never writes a template, at once or in the work that it puts off, as long as it
is given none. The host may keep what it has seen, as far as that is in order. -/
structure DirectiveHandler.KeepsUntemplated (inOrder : σ → Prop) (handler : DirectiveHandler σ) :
    Prop where
  atOnce (node : Reference) (args : List Value) (root : Value) (host : σ)
    (ha : Value.anyTemplate args = false) : (handler node args).KeepsUntemplated inOrder node root host
  later (node : Reference) (args : List Value) (root : Value) (host : σ)
    (ha : Value.anyTemplate args = false) (h : Untemplated inOrder root host) (work : Action σ Unit)
    (hr : ((handler node args).run node root host).1 = .ok (.pending work)) :
    work.KeepsUntemplated inOrder node ((handler node args).run node root host).2.1
      ((handler node args).run node root host).2.2

def Config.KeepsUntemplated (inOrder : σ → Prop) (config : Config σ) : Prop :=
  ∀ name handler, config.handler? name = some handler → handler.KeepsUntemplated inOrder

theorem Config.keepsUntemplated_of_handlers {inOrder : σ → Prop} {config : Config σ}
    (h : ∀ entry ∈ config.handlers, entry.2.KeepsUntemplated inOrder) :
    config.KeepsUntemplated inOrder :=
  fun _ _ hf => h _ (Table.mem_of_find? hf)

def Event.Untemplated : Event → Prop
  | .job (.interpolate _ _) => False
  | .applied _ _ root args => root.hasTemplate = false ∧ Value.anyTemplate args = false
  | _ => True

namespace Value

theorem hasTemplate_array_iff {items : List Value} :
    (array items).hasTemplate = false ↔ ∀ v ∈ items, v.hasTemplate = false := by
  change anyTemplate items = false ↔ _
  induction items with
  | nil => simp [anyTemplate]
  | cons v rest ih => rw [anyTemplate, Bool.or_eq_false_iff, List.forall_mem_cons, ih]

theorem hasTemplate_object_iff {members : Table Value} :
    (object members).hasTemplate = false ↔ ∀ member ∈ members, member.2.hasTemplate = false := by
  change anyMemberTemplate members = false ↔ _
  induction members with
  | nil => simp [anyMemberTemplate]
  | cons member rest ih => rw [anyMemberTemplate, Bool.or_eq_false_iff, List.forall_mem_cons, ih]

theorem hasTemplate_insert {members : Table Value} {w : Value} (name : String)
    (hm : (object members).hasTemplate = false) (hw : w.hasTemplate = false) :
    (object (Table.insert members name w)).hasTemplate = false := by
  rw [hasTemplate_object_iff] at hm ⊢
  intro member h
  rcases Table.mem_of_mem_insert h with rfl | h
  · exact hw
  · exact hm member h

theorem hasTemplate_set {items : List Value} {w : Value} (position : Nat)
    (hi : (array items).hasTemplate = false) (hw : w.hasTemplate = false) :
    (array (items.set position w)).hasTemplate = false := by
  rw [hasTemplate_array_iff] at hi ⊢
  intro v h
  rcases List.mem_or_eq_of_mem_set h with h | rfl
  · exact hi v h
  · exact hw

theorem hasTemplate_of_lookup? {v w : Value} {path : Path} (h : v.lookup? path = some w)
    (hv : v.hasTemplate = false) : w.hasTemplate = false := by
  rw [hasTemplate_eq_false_iff] at hv ⊢
  exact List.subset_nil.1 (hv ▸ templates_subset_of_lookup? h)

theorem hasTemplate_of_setMember? {v w v' : Value} {step : Segment}
    (h : v.setMember? step w = some v') (hv : v.hasTemplate = false) (hw : w.hasTemplate = false) :
    v'.hasTemplate = false := by
  cases v with
  | object members =>
    unfold setMember? at h
    dsimp only at h
    split at h
    · cases h
      exact hasTemplate_insert _ hv hw
    · cases h
  | array items =>
    obtain ⟨position, -, h⟩ := Option.bind_eq_some_iff.1 h
    split at h
    · cases h
      exact hasTemplate_set position hv hw
    · cases h
  | _ => cases h

theorem hasTemplate_of_assign? {v w v' : Value} {path : Path} (h : v.assign? path w = some v')
    (hv : v.hasTemplate = false) (hw : w.hasTemplate = false) : v'.hasTemplate = false := by
  induction path generalizing v v' with
  | nil =>
    cases h
    exact hw
  | cons step rest ih =>
    obtain ⟨part, hp, h⟩ := Option.bind_eq_some_iff.1 h
    obtain ⟨changed, hc, h⟩ := Option.bind_eq_some_iff.1 h
    have hl : v.lookup? [step] = some part := by
      rw [lookup?, hp]
      rfl
    exact hasTemplate_of_setMember? h hv (ih hc (hasTemplate_of_lookup? hl hv))

end Value

namespace Reference

theorem hasTemplate_value (target : Reference) {root : Value} (h : root.hasTemplate = false) :
    (target.value root).hasTemplate = false := by
  rw [value, get?_eq_lookup?]
  cases hl : root.lookup? target.location with
  | none => rfl
  | some v => exact Value.hasTemplate_of_lookup? hl h

theorem hasTemplate_of_store {v w v' : Value} {key : Segment} (h : store v key w = .ok v')
    (hv : v.hasTemplate = false) (hw : w.hasTemplate = false) : v'.hasTemplate = false := by
  unfold store at h
  split at h
  · cases h
    exact Value.hasTemplate_insert _ hv hw
  · split at h
    · cases h
      exact Value.hasTemplate_set _ hv hw
    · split at h
      · cases h
        rw [Value.hasTemplate_array_iff] at hv ⊢
        exact List.forall_mem_append.2 ⟨hv, List.forall_mem_singleton.2 hw⟩
      · cases h
  · cases h

/-- Writing a value without templates adds none. -/
theorem hasTemplate_of_set {target : Reference} {root root' w : Value}
    (h : target.set root w = .ok root') (hr : root.hasTemplate = false)
    (hw : w.hasTemplate = false) : root'.hasTemplate = false := by
  unfold set replace at h
  split at h
  · cases h
  · rename_i container hc
    split at h
    · cases h
    · rename_i changed hs
      split at h
      · rename_i after ha
        cases h
        have hcontainer := Value.hasTemplate_of_lookup? hc hr
        exact Value.hasTemplate_of_assign? ha hr (hasTemplate_of_store hs hcontainer hw)
      · cases h

end Reference

namespace DirectiveHandler

theorem run_ofMapper_ofHost (f : Value → List Value → Host σ Value) (node : Reference)
    (args : List Value) (root : Value) (host : σ) :
    (ofMapper (.ofHost f) node args).run node root host =
      match f (node.value root) args host with
      | (.error e, host') => (.error e, root, host')
      | (.ok w, host') => match node.set root w with
        | .error e => (.error e, root, host')
        | .ok root' => (.ok .ready, root', host') := by
  rcases hf : f (node.value root) args host with ⟨e | w, host'⟩
  · simp only [ofMapper, MapperHandler.ofHost, Action.valueOf, Action.ofHost, bind, Action.andThen,
      Action.run, Except.map, hf]
  · simp only [ofMapper, MapperHandler.ofHost, Action.valueOf, Action.ofHost, bind, Action.andThen,
      Action.run, Except.map, hf, Action.set, Action.update, Reference.set]
    cases node.replace root (fun _ => w) <;> rfl

/-- A mapper that gives no template as long as it is given none never writes one. -/
theorem keepsUntemplated_ofMapper {inOrder : σ → Prop} {f : Value → List Value → Host σ Value}
    (hf : ∀ v args host, v.hasTemplate = false → Value.anyTemplate args = false → inOrder host →
      inOrder (f v args host).2 ∧ ∀ w, (f v args host).1 = .ok w → w.hasTemplate = false) :
    (ofMapper (.ofHost f)).KeepsUntemplated inOrder := by
  constructor
  · intro node args root host ha h
    have hn := hf (node.value root) args host (node.hasTemplate_value h.root) ha h.host
    rw [run_ofMapper_ofHost]
    generalize f (node.value root) args host = given at hn ⊢
    obtain ⟨_ | w, host'⟩ := given
    · exact ⟨h.root, hn.1⟩
    · dsimp only
      cases hs : node.set root w with
      | error e => exact ⟨h.root, hn.1⟩
      | ok root' => exact ⟨Reference.hasTemplate_of_set hs h.root (hn.2 w rfl), hn.1⟩
  · intro node args root host _ _ work hr
    rw [run_ofMapper_ofHost] at hr
    generalize f (node.value root) args host = given at hr
    obtain ⟨_ | w, host'⟩ := given
    · cases hr
    · dsimp only at hr
      cases hs : node.set root w <;> rw [hs] at hr <;> cases hr

end DirectiveHandler

namespace Session

/-- A session in which there is no template, and has been none when a handler was applied. -/
structure Untemplated (inOrder : σ → Prop) (s : Session σ) : Prop where
  state : ConfigDoc.Untemplated inOrder s.root s.host
  journal : ∀ event ∈ s.journal, event.Untemplated

/-- A run that ends without a template, and complains about a circle only if a handler does. -/
structure Uncircular (config : Config σ) (inOrder : σ → Prop)
    (run : Except Error Unit × Session σ) : Prop where
  session : run.2.Untemplated inOrder
  raised (chain : List String) (h : run.1 = .error (.circularTemplate chain)) :
    Raised config (.circularTemplate chain) run.2

variable {config : Config σ} {mode : Mode} {inOrder : σ → Prop} {s : Session σ}

theorem Untemplated.record (h : s.Untemplated inOrder) {event : Event} (he : event.Untemplated) :
    (s.record event).Untemplated inOrder := by
  refine ⟨h.state, fun event' hm => ?_⟩
  rcases List.mem_append.1 hm with hm | hm
  · exact h.journal event' hm
  · cases List.mem_singleton.1 hm
    exact he

theorem uncircular_ok (h : s.Untemplated inOrder) : Uncircular config inOrder (.ok (), s) :=
  ⟨h, nofun⟩

theorem Uncircular.andThen {run : Except Error Unit × Session σ}
    {next : Session σ → Except Error Unit × Session σ} (h : Uncircular config inOrder run)
    (hn : ∀ after, after.Untemplated inOrder → Uncircular config inOrder (next after)) :
    Uncircular config inOrder (andThen run next) := by
  obtain ⟨_ | _, after⟩ := run
  · exact h
  · exact hn after h.session

theorem untemplated_apply (mode : Mode) {target : Reference} {call : BoundCall σ}
    (hc : call.handler.KeepsUntemplated inOrder) (ha : Value.anyTemplate call.args = false)
    (h : s.Untemplated inOrder) : (apply mode target call s).2.Untemplated inOrder := by
  have hb : (s.record (.applied call.name target s.root call.args)).Untemplated inOrder :=
    h.record ⟨h.state.root, ha⟩
  have hp := hc.atOnce target call.args s.root s.host ha h.state
  have hlater := hc.later target call.args s.root s.host ha h.state
  unfold apply perform
  dsimp only [Session.record] at hb ⊢
  rcases hr : (call.handler target call.args).run target s.root s.host with
    ⟨_ | _ | work, root, host⟩ <;> rw [hr] at hp hlater <;> dsimp only at hp hlater
  · exact ⟨hp, hb.journal⟩
  · exact ⟨hp, hb.journal⟩
  · have hafter : Session.Untemplated inOrder
        ⟨root, s.queue, host, s.journal ++ [.applied call.name target s.root call.args]⟩ :=
      ⟨hp, hb.journal⟩
    have hd := hafter.record (show (Event.deferred call.name).Untemplated from trivial)
    cases mode with
    | blocking => exact hd
    | awaiting => exact ⟨hlater work rfl hp, hd.journal⟩

theorem uncircular_apply {target : Reference} {call : BoundCall σ}
    (hh : config.handler? call.name = some call.handler) (hc : config.KeepsUntemplated inOrder)
    (ha : Value.anyTemplate call.args = false) (h : s.Untemplated inOrder) :
    Uncircular config inOrder (apply mode target call s) := by
  -- The only error of the run's own is that of work put off; every other one is a handler's.
  refine ⟨untemplated_apply mode (hc _ _ hh) ha h, fun chain he => ?_⟩
  rcases error_of_apply hh (Prod.ext he rfl) with hm | hr
  · cases hm
  · exact hr

theorem uncircular_applyAll {target : Reference} {calls : List (BoundCall σ)}
    (hh : ∀ call ∈ calls, config.handler? call.name = some call.handler)
    (hc : config.KeepsUntemplated inOrder)
    (ha : ∀ call ∈ calls, Value.anyTemplate call.args = false) (h : s.Untemplated inOrder) :
    Uncircular config inOrder (applyAll mode target calls s) := by
  induction calls generalizing s with
  | nil => exact uncircular_ok h
  | cons call rest ih =>
    obtain ⟨hcall, hrest⟩ := List.forall_mem_cons.1 hh
    obtain ⟨hargs, hothers⟩ := List.forall_mem_cons.1 ha
    apply (uncircular_apply hcall hc hargs h).andThen
    intro after hafter
    exact ih hrest hothers hafter

/-- Without interpolation no circle is met among arguments. -/
theorem bound_ne_circular (hi : config.interpolate = false) (sources : List Value)
    (calls : List (Call Tree)) (chain : List String) :
    bound config sources calls ≠ .error (.circularTemplate chain) := by
  intro h
  induction calls with
  | nil => cases h
  | cons call rest ih =>
    rw [bound] at h
    split at h
    · cases h
    rcases bind_eq_error_iff.1 h with h | ⟨vs, hv, h⟩
    · obtain ⟨kind, hk, -⟩ := Tree.error_of_initialItems _ h
      cases hk
    rcases bind_eq_error_iff.1 h with h | ⟨args, -, h⟩
    · rw [hi] at hv
      cases (resolveAll_of_anyTemplate _ _ (Tree.anyTemplate_initialItems_false hv)).symm.trans h
    rcases bind_eq_error_iff.1 h with h | ⟨others, -, h⟩
    · exact ih h
    · cases h

theorem sweep_of_untemplated (config : Config σ) (h : s.Untemplated inOrder) :
    sweep config s = (.ok (), s) := by
  rw [sweep, Reference.hasTemplate_value _ h.state.root]
  rfl

/-- The jobs of a tree without interpolation leave no template behind. -/
theorem uncircular_runJob (hi : config.interpolate = false) (hc : config.KeepsUntemplated inOrder)
    {job : Job} (hj : ∀ target t, job ≠ .interpolate target t) (h : s.Untemplated inOrder) :
    Uncircular config inOrder (runJob config mode job s) := by
  cases job with
  | interpolate target t => exact absurd rfl (hj target t)
  | sweep =>
    have hr : (s.record (.job .sweep)).Untemplated inOrder := h.record trivial
    rw [runJob, sweep_of_untemplated config hr]
    exact uncircular_ok hr
  | directives target calls =>
    have hr : (s.record (.job (.directives target calls))).Untemplated inOrder := h.record trivial
    rw [runJob_directives]
    cases hb : bound config s.sources calls with
    | error e =>
      refine ⟨hr, fun chain he => ?_⟩
      cases he
      exact absurd hb (bound_ne_circular hi _ _ _)
    | ok made => exact uncircular_applyAll (handlers_of_bound hb) hc (anyTemplate_of_bound hb) hr

theorem uncircular_runAll (hi : config.interpolate = false) (hc : config.KeepsUntemplated inOrder)
    {jobs : List Job} (hj : ∀ job ∈ jobs, ∀ target t, job ≠ .interpolate target t)
    (h : s.Untemplated inOrder) : Uncircular config inOrder (runAll config mode jobs s) := by
  induction jobs generalizing s with
  | nil => exact uncircular_ok h
  | cons job rest ih =>
    obtain ⟨hjob, hrest⟩ := List.forall_mem_cons.1 hj
    apply (uncircular_runJob hi hc hjob h).andThen
    intro after hafter
    exact ih hrest hafter

theorem uncircular_runPasses (hi : config.interpolate = false)
    (hc : config.KeepsUntemplated inOrder) {passes : List (Stage × List Job)}
    (hj : ∀ pass ∈ passes, ∀ job ∈ pass.2, ∀ target t, job ≠ .interpolate target t)
    (h : s.Untemplated inOrder) :
    Uncircular config inOrder (runPasses config mode passes s) := by
  induction passes generalizing s with
  | nil => exact uncircular_ok h
  | cons pass rest ih =>
    obtain ⟨stage, jobs⟩ := pass
    obtain ⟨hjobs, hrest⟩ := List.forall_mem_cons.1 hj
    have hr : (s.record (.pass stage)).Untemplated inOrder := h.record trivial
    apply (uncircular_runAll hi hc hjobs hr).andThen
    intro after hafter
    exact ih hrest hafter

end Session

end ConfigDoc
