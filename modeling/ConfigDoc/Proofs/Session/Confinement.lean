import ConfigDoc.Proofs.Draft.Acceptance
import ConfigDoc.Proofs.Draft.Slots
import ConfigDoc.Proofs.Session.Failure

/-! Handlers that change nothing but the nodes they are applied to: they cut off no path that later
work depends on, and none of their changes is refused. -/

namespace ConfigDoc

variable {σ α β : Type}

namespace Action

/-- Whether an action changes no node but `node`, whatever it learns, and gives only what `gives`
allows. -/
def Confined (node : Reference) (gives : α → Prop) : Action σ α → Prop
  | done a => gives a
  | fail _ => True
  | look next => ∀ root, (next root).Confined node gives
  | change _ next => ∀ result, (next result).Confined node gives
  | changeKept kept _ next => kept = node ∧ ∀ result, (next result).Confined node gives
  | getHost next => ∀ state, (next state).Confined node gives
  | setHost _ next => next.Confined node gives

def Unrefused (node : Reference) : Action σ α → Value → σ → Prop
  | done _, _, _ => True
  | fail _, _, _ => True
  | look next, root, state => (next root).Unrefused node root state
  | change f next, root, state =>
    ∃ root', node.replace root f = .ok root' ∧ (next (.ok ())).Unrefused node root' state
  | changeKept kept f next, root, state =>
    ∃ root', kept.replace root f = .ok root' ∧ (next (.ok ())).Unrefused node root' state
  | getHost next, root, state => (next state).Unrefused node root state
  | setHost state next, root, _ => next.Unrefused node root state

/-- What a confined action does to a tree: no change is refused, every path stays intact that the
node spares, and it gives what it may. -/
structure Contained (node : Reference) (gives : α → Prop) (action : Action σ α) (root : Value)
    (state : σ) : Prop where
  unrefused : action.Unrefused node root state
  paved (path : Path) (hp : root.Paved path) (hs : node.location.Spares path) :
    (action.run node root state).2.1.Paved path
  gives (a : α) (h : (action.run node root state).1 = .ok a) : gives a

variable {node : Reference} {gives : α → Prop} {root : Value}

/-- A change of the node is carried out, and keeps the node in place. -/
theorem contained_change {f : Value → Value} {next : Except Error Unit → Action σ α} {state : σ}
    (hn : root.Paved node.location) (ih : ∀ root', root'.Paved node.location →
      Contained node gives (next (.ok ())) root' state) :
    Contained node gives (change f next) root state := by
  obtain ⟨root', hr, -⟩ := Reference.replace_of_paved hn f
  have hkeep : ∀ path, root.Paved path → node.location.Spares path → root'.Paved path :=
    fun path => Reference.paved_of_replace hn hr
  have hnext := ih root' (hkeep _ hn (Path.spares_self _))
  constructor
  · exact ⟨root', hr, hnext.unrefused⟩
  · intro path hp hs
    rw [run, hr]
    exact hnext.paved path (hkeep path hp hs) hs
  · intro a h
    rw [run, hr] at h
    exact hnext.gives a h

theorem Confined.contained {action : Action σ α} (h : action.Confined node gives)
    (hn : root.Paved node.location) (state : σ) : Contained node gives action root state := by
  induction action generalizing root state with
  | done a =>
    refine ⟨trivial, fun path hp _ => hp, fun b hb => ?_⟩
    cases hb
    exact h
  | fail e => exact ⟨trivial, fun path hp _ => hp, nofun⟩
  | look next ih =>
    have hnext := ih root (h root) hn state
    exact ⟨hnext.unrefused, hnext.paved, hnext.gives⟩
  | change f next ih => exact contained_change hn fun root' hn' => ih _ (h _) hn' state
  | changeKept kept f next ih =>
    obtain ⟨rfl, h⟩ := h
    have hchange := contained_change (f := f) hn fun root' hn' => ih _ (h _) hn' state
    have hr : (changeKept kept f next).run kept root state = (change f next).run kept root state := by
      rw [run, run]
    exact ⟨hchange.unrefused, hr ▸ hchange.paved, hr ▸ hchange.gives⟩
  | getHost next ih =>
    have hnext := ih state (h state) hn state
    exact ⟨hnext.unrefused, hnext.paved, hnext.gives⟩
  | setHost state' next ih =>
    have hnext := ih h hn state'
    exact ⟨hnext.unrefused, hnext.paved, hnext.gives⟩

theorem confined_bind {gives' : β → Prop} {action : Action σ α} {f : α → Action σ β}
    (h : action.Confined node gives) (hf : ∀ a, gives a → (f a).Confined node gives') :
    (action >>= f).Confined node gives' := by
  change (action.andThen f).Confined node gives'
  induction action with
  | done a => exact hf a h
  | fail e => trivial
  | look next ih => exact fun root => ih root (h root)
  | change g next ih => exact fun result => ih result (h result)
  | changeKept kept g next ih => exact ⟨h.1, fun result => ih result (h.2 result)⟩
  | getHost next ih => exact fun state => ih state (h state)
  | setHost state next ih => exact ih h

theorem confined_update (f : Value → Value) :
    (update f : Action σ Unit).Confined node fun _ => True := by
  intro result
  cases result <;> trivial

theorem confined_valueOf (other : Reference) :
    (valueOf other : Action σ Value).Confined node fun _ => True :=
  fun _ => trivial

theorem confined_ofHost (computation : Host σ α) :
    (ofHost computation).Confined node fun _ => True := by
  intro state
  rcases hc : computation state with ⟨_ | _, after⟩ <;> simp only [hc] <;> trivial

end Action

def Outcome.Confined (node : Reference) : Outcome σ → Prop
  | .ready => True
  | .pending later => later.Confined node fun _ => True

namespace DirectiveHandler

def Confined (handler : DirectiveHandler σ) : Prop :=
  ∀ node args, (handler node args).Confined node (Outcome.Confined node)

def Unrefused (handler : DirectiveHandler σ) (node : Reference) (args : List Value) (root : Value) :
    Prop :=
  ∀ host, (handler node args).Unrefused node root host ∧ ∀ later root' host',
    (handler node args).run node root host = (.ok (.pending later), root', host') →
      later.Unrefused node root' host'

/-- A mapper changes nothing but its node. -/
theorem confined_ofMapper (mapper : MapperHandler σ) : (ofMapper mapper).Confined := by
  intro node args
  refine Action.confined_bind (Action.confined_valueOf node) fun v _ => ?_
  refine Action.confined_bind (Action.confined_ofHost (mapper v args)) fun mapped _ => ?_
  cases mapped with
  | ready w => exact Action.confined_bind (Action.confined_update _) fun _ _ => trivial
  | pending later =>
    exact Action.confined_bind (Action.confined_ofHost later) fun w _ => Action.confined_update _

theorem Confined.unrefused {handler : DirectiveHandler σ} (h : handler.Confined) {node : Reference}
    {root : Value} (hn : root.Paved node.location) (args : List Value) :
    handler.Unrefused node args root := by
  intro host
  have hc := (h node args).contained hn host
  refine ⟨hc.unrefused, fun later root' host' hr => ?_⟩
  have hn' := hc.paved _ hn (Path.spares_self _)
  have hl := hc.gives (.pending later)
  rw [hr] at hn' hl
  exact (hl rfl).contained hn' host' |>.unrefused

end DirectiveHandler

namespace Config

def Confined (config : Config σ) : Prop :=
  ∀ name handler, config.handler? name = some handler → handler.Confined

theorem confined_of_handlers {config : Config σ}
    (h : ∀ entry ∈ config.handlers, entry.2.Confined) : config.Confined :=
  fun _ _ hh => h _ (Table.mem_of_find? hh)

end Config

namespace Session
open Reference

def InPlace (s : Session σ) : Prop :=
  ∀ name target root args, .applied name target root args ∈ s.journal → root.Paved target.location

/-- What a run of confined handlers comes to: the paths that it spares stay intact, handlers are
applied to nodes in their places, and only a handler complains about a reference. -/
structure Keeps (config : Config σ) (spares : Path → Prop) (s : Session σ)
    (run : Except Error Unit × Session σ) : Prop where
  paved (path : Path) (hp : s.root.Paved path) (hs : spares path) : run.2.root.Paved path
  inPlace (h : s.InPlace) : run.2.InPlace
  raised (path message : String) (h : run.1 = .error (.invalidReference path message)) :
    Raised config (.invalidReference path message) run.2

variable {config : Config σ} {s : Session σ} {spares spares' : Path → Prop}

theorem Keeps.mono {run : Except Error Unit × Session σ} (h : Keeps config spares s run)
    (hs : ∀ path, spares' path → spares path) : Keeps config spares' s run :=
  ⟨fun path hp hs' => h.paved path hp (hs path hs'), h.inPlace, h.raised⟩

theorem Keeps.andThen {run : Except Error Unit × Session σ} (h : Keeps config spares s run)
    {next : Session σ → Except Error Unit × Session σ}
    (hn : ∀ after, (∀ path, s.root.Paved path → spares path → after.root.Paved path) →
      Keeps config spares' after (next after)) :
    Keeps config (fun path => spares path ∧ spares' path) s (andThen run next) := by
  obtain ⟨_ | _, after⟩ := run
  · exact ⟨fun path hp hs => h.paved path hp hs.1, h.inPlace, h.raised⟩
  · have hnext := hn after h.paved
    exact ⟨fun path hp hs => hnext.paved path (h.paved path hp hs.1) hs.2,
      fun hi => hnext.inPlace (h.inPlace hi), hnext.raised⟩

theorem inPlace_of_journal {after : Session σ} (h : s.InPlace) {rest : List Event}
    (hj : after.journal = s.journal ++ rest) (hr : ∀ name target root args,
      .applied name target root args ∈ rest → root.Paved target.location) : after.InPlace := by
  intro name target root args hm
  rw [hj] at hm
  exact (List.mem_append.1 hm).elim (h name target root args) (hr name target root args)

theorem inPlace_of_eq {after : Session σ} (h : s.InPlace) (hj : after.journal = s.journal) :
    after.InPlace :=
  fun name target root args hm => h name target root args (hj ▸ hm)

theorem InPlace.record {event : Event} (h : s.InPlace) (he : event.application? = none) :
    (s.record event).InPlace :=
  inPlace_of_journal h rfl fun name target root args hm => by
    cases List.mem_singleton.1 hm
    cases he

/-- The tree is as the handler has left it, or as the work has that it put off. -/
theorem root_apply (mode : Mode) (target : Reference) (call : BoundCall σ) (s : Session σ) :
    (apply mode target call s).2.root =
        ((call.handler target call.args).run target s.root s.host).2.1 ∨
      ∃ later root host, (call.handler target call.args).run target s.root s.host =
          (.ok (.pending later), root, host) ∧
        (apply mode target call s).2.root = (later.run target root host).2.1 := by
  unfold apply perform
  dsimp only
  rw [show (s.record _).root = s.root from rfl, show (s.record _).host = s.host from rfl]
  rcases (call.handler target call.args).run target s.root s.host with
    ⟨_ | _ | later, root, host⟩
  · exact .inl rfl
  · exact .inl rfl
  · cases mode with
    | blocking => exact .inl rfl
    | awaiting => exact .inr ⟨later, root, host, rfl, rfl⟩

theorem keeps_apply (mode : Mode) {target : Reference} {call : BoundCall σ}
    (hc : call.handler.Confined) (hh : config.handler? call.name = some call.handler)
    (hn : s.root.Paved target.location) :
    Keeps config target.location.Spares s (apply mode target call s) := by
  have hcontained := (hc target call.args).contained hn s.host
  constructor
  · intro path hp hs
    have hn' := hcontained.paved _ hn (Path.spares_self _)
    have hp' := hcontained.paved path hp hs
    rcases root_apply mode target call s with hr | ⟨later, root, host, hl, hr⟩ <;> rw [hr]
    · exact hp'
    · rw [hl] at hn' hp'
      have hlater := hcontained.gives (.pending later) (congrArg Prod.fst hl)
      exact (hlater.contained hn' host).paved path hp' hs
  · intro hi
    obtain ⟨rest, hj, hr⟩ := journal_apply mode target call s
    refine inPlace_of_journal hi hj fun name target' root args hm => ?_
    rcases List.mem_cons.1 hm with he | hm
    · cases he
      exact hn
    · cases hr _ hm
  · intro path message h
    exact (error_of_apply hh (Prod.ext h rfl)).resolve_left nofun

theorem keeps_applyAll (mode : Mode) {target : Reference} {made : List (BoundCall σ)}
    (hc : ∀ call ∈ made, call.handler.Confined)
    (hh : ∀ call ∈ made, config.handler? call.name = some call.handler)
    (hn : s.root.Paved target.location) :
    Keeps config target.location.Spares s (applyAll mode target made s) := by
  induction made generalizing s with
  | nil => exact ⟨fun path hp _ => hp, fun hi => hi, nofun⟩
  | cons call rest ih =>
    obtain ⟨hcf, hcr⟩ := List.forall_mem_cons.1 hc
    obtain ⟨hhf, hhr⟩ := List.forall_mem_cons.1 hh
    refine ((keeps_apply mode hcf hhf hn).andThen fun after ha =>
      ih hcr hhr (ha _ hn (Path.spares_self _))).mono fun path hs => ⟨hs, hs⟩

/-- A sweep replaces templates, which no path leads through. -/
theorem paved_sweep (config : Config σ) (hn : s.root.Paved Reference.document.location) :
    ∀ path, s.root.Paved path → (sweep config s).2.root.Paved path := by
  intro path hp
  rw [sweep]
  dsimp only
  split
  · split
    · rename_i hw
      obtain ⟨resolved, hr, hw⟩ := bind_eq_ok_iff.1 hw
      obtain ⟨root', hset, hpaved⟩ := replace_of_paved hn fun _ => resolved
      cases hset.symm.trans hw
      exact hpaved path hp fun rest _ hrest => Value.paved_of_mapTemplates hr hrest
    · exact hp
  · exact hp

theorem keeps_runJob (mode : Mode) (hc : config.Confined) {job : Job}
    (hn : s.root.Paved job.slot.location) : Keeps config job.Spares s (runJob config mode job s) := by
  have hown : job.Spares job.slot.location := .inr (Path.spares_self _)
  suffices h : (∀ path, s.root.Paved path → job.Spares path →
      (runJob config mode job s).2.root.Paved path) ∧
      (s.InPlace → (runJob config mode job s).2.InPlace) by
    refine ⟨h.1, h.2, fun path message he => ?_⟩
    have hb : Blame config job _ (runJob config mode job s).2 := error_of_runJob (Prod.ext he rfl)
    -- The job's own write cannot fail, since its slot is still in place.
    cases hb with
    | circle chain h => cases h
    | slot v hs =>
      obtain ⟨root', hr, -⟩ := replace_of_paved (h.1 _ hn hown) fun _ => v
      cases hs.symm.trans hr
    | unknown call hm hn h => cases h
    | argument call hm h =>
      obtain ⟨kind, hk, -⟩ := Tree.error_of_initialItems _ h
      cases hk
    | misuse name h => cases h
    | raised h => exact h
  have hrec : s.InPlace → (s.record (.job job)).InPlace := fun hi => hi.record rfl
  cases job with
  | interpolate target template =>
    refine ⟨fun path hp hs => ?_, fun hi => ?_⟩
    · rw [runJob, interpolate]
      split
      · rename_i hw
        obtain ⟨text, -, hw⟩ := bind_eq_ok_iff.1 hw
        exact paved_of_replace hn hw hp (hs.resolve_left (by simp))
      · exact hp
    · exact inPlace_of_eq (hrec hi) (journal_interpolate config target template _)
  | sweep =>
    refine ⟨fun path hp _ => paved_sweep config (s := s.record (.job .sweep)) hn path hp, fun hi => ?_⟩
    exact inPlace_of_eq (hrec hi) (journal_sweep config _)
  | directives target calls =>
    rw [runJob_directives]
    split
    · exact ⟨fun path hp _ => hp, hrec⟩
    · rename_i hb
      have hh := handlers_of_bound hb
      have hk := keeps_applyAll mode (s := s.record (.job (.directives target calls)))
        (fun call hm => hc _ _ (hh call hm)) hh hn
      exact ⟨fun path hp hs => hk.paved path hp (hs.resolve_left (by simp)),
        fun hi => hk.inPlace (hrec hi)⟩

theorem keeps_runAll (mode : Mode) (hc : config.Confined) {jobs : List Job}
    (hn : ∀ job ∈ jobs, s.root.Paved job.slot.location)
    (hp : jobs.Pairwise fun i j => i.Spares j.slot.location) :
    Keeps config (fun path => ∀ job ∈ jobs, job.Spares path) s (runAll config mode jobs s) := by
  induction jobs generalizing s with
  | nil => exact ⟨fun path hp _ => hp, fun hi => hi, nofun⟩
  | cons job rest ih =>
    obtain ⟨hnj, hnr⟩ := List.forall_mem_cons.1 hn
    obtain ⟨hpj, hpr⟩ := List.pairwise_cons.1 hp
    exact ((keeps_runJob mode hc hnj).andThen fun after ha =>
      ih (fun other hm => ha _ (hnr other hm) (hpj other hm)) hpr).mono
        fun path => List.forall_mem_cons.1

/-- The jobs of all passes, each working in its place, spare the slots of those that come later. -/
theorem keeps_runPasses (mode : Mode) (hc : config.Confined) {passes : List (Stage × List Job)}
    (hn : ∀ job ∈ passes.flatMap Prod.snd, s.root.Paved job.slot.location)
    (hp : (passes.flatMap Prod.snd).Pairwise fun i j => i.Spares j.slot.location) :
    Keeps config (fun path => ∀ job ∈ passes.flatMap Prod.snd, job.Spares path) s
      (runPasses config mode passes s) := by
  induction passes generalizing s with
  | nil => exact ⟨fun path hp _ => hp, fun hi => hi, nofun⟩
  | cons pass rest ih =>
    rw [List.flatMap_cons] at hn hp
    obtain ⟨hnp, hnr⟩ := List.forall_mem_append.1 hn
    obtain ⟨hpp, hpr, hcross⟩ := List.pairwise_append.1 hp
    have hpass := keeps_runAll mode (s := s.record (.pass pass.1)) hc hnp hpp
    have hrest := hpass.andThen fun after ha =>
      ih (fun job hm => ha _ (hnr job hm) fun earlier he => hcross earlier he job hm) hpr
    refine ⟨fun path hp hs => hrest.paved path hp ?_, fun hi => hrest.inPlace (hi.record rfl),
      hrest.raised⟩
    rw [List.flatMap_cons] at hs
    exact List.forall_mem_append.1 hs

end Session

end ConfigDoc
